import Hpdcache.SingleCopy

/-!
# Booked ways

A miss in flight books its way: the fetch bit of the way is set in the directory, so that the way is
no victim, until the refill has written the line there. The recovery clears the entry of a way with
an uncorrectable error, also when the way is booked: it then gives the pipeline back only when no
miss is left.

**Requirement.** No invalidation of the network clears a booked way (`Cache.Spares`).

* `Cache.Booked` — the misses in flight and their ways.
* `Cache.Booked.step` — a cycle keeps them.
* `MissMap.booked_run` — no two misses in flight go to the same way.
-/

namespace Hpdcache

open Hw

variable {c : Cfg}

/-! ## The decision -/

/-- The request that updates the directory in stage 2 has looked its line up. -/
theorem Decision.proceeds_of_updt {d : Decision} {p : PeIn} (hg : d.Guard c p)
    (hu : (d.dirUpdt p).updt = true) :
    p.Proceeds ∧ (p.st1ReqIsCmoInval || p.st1ReqIsCmoFlush || p.st1ReqIsCmoFence) = false := by
  cases d <;> simp only [dirUpdt, Bool.false_eq_true] at hu
  all_goals exact ⟨hg.1.toProceeds, hg.1.not_cmo⟩

/-- An update that sets the fetch bit leaves no dirty line, and one that clears it is of a line that
is there. -/
theorem Decision.fetch_of_updt {d : Decision} {p : PeIn} (hg : d.Guard c p)
    (hu : (d.dirUpdt p).updt = true) :
    ((d.dirUpdt p).fetch = true → (d.dirUpdt p).dirty = false) ∧
      ((d.dirUpdt p).fetch = false →
        p.cachedirHit = true ∧ (p.st1DirHitFetch = false ∨ p.st1DirHitDirty = true)) := by
  cases d <;> simp only [dirUpdt, Bool.false_eq_true, Bool.true_eq_false, false_imp_iff,
    forall_const, implies_true, true_and, and_true] at hu ⊢
  case ucFlush => exact ⟨hg.2.2.1, .inr hg.2.2.2.1⟩
  case ucSendInval => exact fun _ => ⟨hg.2.2.1, .inl hg.2.2.2.2⟩
  case amoSendHit => exact fun hf => ⟨hg.2.2.2.1, .inl hf⟩
  case amoFlush => exact fun hf => ⟨hg.2.2.2.1, .inl hf⟩
  case loadHitToWt => exact ⟨hg.1.hit, .inl hg.2.1⟩
  case loadHitToWb => exact ⟨hg.1.hit, .inl hg.2.1⟩
  case storeHitToDirty => exact ⟨hg.1.hit, .inl hg.1.not_fetch⟩
  case storeFlush => exact ⟨hg.1.hit, .inl hg.1.not_fetch⟩

/-! ## The recovery -/

namespace ErrFsm

variable {e : ErrFsm c} {i : ErrIn c}

theorem next_busy (hu : e.errUnc = true) (o : ErrOut c) : (e.next o).fsmD ≠ .idle := by
  unfold next last
  split_ifs
  · simp
  · simp

/-- A recovery from an uncorrectable error ends when no miss is left. -/
theorem busy_of_unc (hb : e.busy = true) (hu : e.errUnc = true) :
    (e.step i).busy = true ∧ (e.step i).errUnc = true ∨ e.wait = true ∧ i.mshrEmpty = true := by
  have hecc := ecc_of_busy hb
  have hidle : e.fsmQ ≠ .idle := by
    simpa [busy, hecc] using hb
  have hregs : (e.step i).errUnc = e.errUnc := by
    simp [errUnc, step, hecc, hb]
  have hfsm : (e.step i).fsmQ = (e.comb i).fsmD := by simp [step, hecc]
  by_cases hw : e.wait = true ∧ i.mshrEmpty = true
  · exact .inr hw
  · left
    refine ⟨?_, hregs.trans hu⟩
    have hne : (e.comb i).fsmD ≠ .idle := by
      unfold comb
      rw [if_pos hecc]
      cases hf : e.fsmQ with
      | idle => exact absurd hf hidle
      | check =>
        dsimp only
        unfold combCheck
        dsimp only
        split_ifs
        · simp
        · simp
        · simp [last, hu]
        · simp [default, hf]
      | waitMshr =>
        have hm : i.mshrEmpty = false := by
          simpa [wait, hecc, hf] using hw
        simp [hm]
      | inval => exact next_busy hu _
      | latch => simp
      | correct => exact next_busy hu _
    simp [busy, hecc, hfsm, hne]

theorem unc_of_msk (h : (e.msk e.dirUncQ || e.msk e.datUncQ) = true) : e.errUnc = true := by
  rw [Bool.or_eq_true] at h
  unfold errUnc
  rw [Bool.or_eq_true, any_eq_true, any_eq_true]
  rcases h with h | h
  · rw [msk, any_eq_true] at h
    obtain ⟨w, hw⟩ := h
    rw [Bool.and_eq_true] at hw
    exact .inl ⟨w, hw.1⟩
  · rw [msk, any_eq_true] at h
    obtain ⟨w, hw⟩ := h
    rw [Bool.and_eq_true] at hw
    exact .inr ⟨w, hw.1⟩

/-- An entry is cleared for an uncorrectable error. -/
theorem unc_of_inval (hecc : c.eccEn = true) (h : (e.step i).fsmQ = .inval) :
    (e.step i).errUnc = true := by
  have hfsm : (e.step i).fsmQ = (e.comb i).fsmD := by simp [step, hecc]
  have hnext (o : ErrOut c) : (e.next o).fsmD ≠ .inval := by
    rcases next_fsmD (e := e) o with h' | h' | h' <;> rw [h'] <;> decide
  rw [hfsm] at h
  unfold comb at h
  rw [if_pos hecc] at h
  cases hf : e.fsmQ with
  | check =>
    have hb : e.busy = true := by simp [busy, hecc, hf]
    have hregs : (e.step i).errUnc = e.errUnc := by
      simp [errUnc, step, hecc, hb]
    rw [hregs]
    rw [hf] at h
    by_cases hm : (e.msk e.dirUncQ || e.msk e.datUncQ) = true
    · exact unc_of_msk hm
    · exfalso
      simp only [combCheck, if_neg hm, last, default, hf] at h
      split_ifs at h
  | idle =>
    exfalso
    rw [hf] at h
    simp only [default, hf] at h
    split_ifs at h
  | waitMshr =>
    exfalso
    rw [hf] at h
    dsimp only at h
    split_ifs at h
  | inval =>
    rw [hf] at h
    exact absurd h (hnext _)
  | latch =>
    rw [hf] at h
    contradiction
  | correct =>
    rw [hf] at h
    exact absurd h (hnext _)

end ErrFsm

/-! ## The directory port -/

/-- An update of the pipeline that has the port is written. -/
theorem MemCtrl.dirRam_updt {m : MemCtrl c} {i : MemIn c} {set : Fin c.sets} {w : Fin c.ways}
    (hn : m.initQ = true) (h1 : i.dirMatch = false) (h2 : i.dirRefill = false)
    (h3 : i.dirInvalCheck = false) (h4 : i.dirInvalWrite = false) (h5 : i.dirCmoCheckNline = false)
    (h6 : i.dirCmoCheckEntry = false) (h7 : i.dirCmoUpdt = false) (hu : i.dirUpdt = true) :
    (m.step i).dirRam set w =
      if set = i.dirUpdtSet ∧ i.dirUpdtWay w = true then i.dirUpdtEntry else m.dirRam set w := by
  have hport : m.dirCtrl i = .write i.dirUpdtSet i.dirUpdtWay i.dirUpdtEntry := by
    simp [dirCtrl, hn, h1, h2, h3, h4, h5, h6, h7, hu]
  have he : (m.step i).dirRam set w = if (m.dirCtrl i).addr = set ∧ (m.dirCtrl i).cs w = true ∧
    (m.dirCtrl i).we w = true then (m.dirCtrl i).wentry else m.dirRam set w := rfl
  rw [he, hport]
  by_cases hw : set = i.dirUpdtSet ∧ i.dirUpdtWay w = true
  · rw [if_pos hw]
    exact if_pos ⟨hw.1.symm, hw.2, hw.2⟩
  · rw [if_neg hw]
    exact if_neg fun hx => hw ⟨hx.1.symm, hx.2.1⟩

namespace Cache

variable {s : Cache c} {i : CacheIn c} {set : Fin c.sets} {w : Fin c.ways} {x : Miss c}
  {k k' : MissSlot c}

/-! ## Bookings -/

/-- The places of the misses that go to the way. -/
def holders (s : Cache c) (set : Fin c.sets) (w : Fin c.ways) : Set (Place c) :=
  {p | ∃ k x, p = .miss k ∧ s.missAt k = some x ∧ x.nline.set = set ∧ x.way = w}

/-- The way is no victim: its fetch bit is set, or is set by stage 2, or the recovery keeps the
pipeline until no miss is left. -/
def BookedAt (s : Cache c) (set : Fin c.sets) (w : Fin c.ways) : Prop :=
  (s.mem.dirRam set w).fetch = true ∨
    (s.st2.dirUpdtQ.updt = true ∧ s.st2.dirUpdtQ.fetch = true ∧ s.st2.dirUpdtSetQ = set ∧
      s.st2.dirUpdtWayQ w = true) ∨
    (s.err.busy = true ∧ s.err.errUnc = true)

/-- The misses in flight and their ways. -/
structure Booked (s : Cache c) : Prop where
  alone : ∀ set w, (s.holders set w).Subsingleton
  held : ∀ k x, s.missAt k = some x → s.BookedAt x.nline.set x.way
  init : ∀ k x, s.missAt k = some x → s.mem.initQ = true
  walk : s.cmo.fsmQ.walks = true → s.mshrEmpty = true
  inval : c.eccEn = true → s.err.fsmQ = .inval → s.err.errUnc = true
  clean : ∀ set w, s.mem.initQ = true ∨ set.val < s.mem.initSetQ.val →
    (s.mem.dirRam set w).fetch = true → (s.mem.dirRam set w).dirty = false
  updt : s.st2.dirUpdtQ.updt = true →
    (s.st2.dirUpdtQ.fetch = true → s.st2.dirUpdtQ.dirty = false) ∧
      (s.st2.dirUpdtQ.fetch = false → ∀ w, s.st2.dirUpdtWayQ w = true →
        (s.mem.dirRam s.st2.dirUpdtSetQ w).fetch = false)

/-- No invalidation of the network clears a booked way. -/
def Spares (s : Cache c) (i : CacheIn c) : Prop :=
  (s.refill i).invalWriteDir = true → ∀ w, s.mem.hitWay s.miss.head.invalNline.tag w = true →
    (s.mem.dirRam s.miss.head.invalNline.set w).fetch = false

instance (s : Cache c) (i : CacheIn c) : Decidable (s.Spares i) :=
  inferInstanceAs (Decidable (_ → ∀ _, _ → _))

theorem booked_reset (s : Cache c) : s.reset.Booked where
  alone set w := by
    rintro p ⟨k, x, -, hx, -⟩
    cases k <;> contradiction
  held k x hx := by cases k <;> contradiction
  init k x hx := by cases k <;> contradiction
  walk := nofun
  inval := nofun
  clean set w hinit := by
    rcases hinit with hinit | hinit
    · contradiction
    · exact absurd hinit (by simp [reset, MemCtrl.reset])
  updt := nofun

/-- What stage 0 reads is for a request that is granted. -/
theorem Owned.granted_of_st0 (h : s.Owned) (hr : ((s.pe i).st0ReqCachedirRead ||
    (s.pe i).st0ReqMshrCheck || (s.pe i).st0ReqCachedataRead) = true) :
    ((s.peIn i).GrantCore c ∨ (s.peIn i).GrantRtab c ∨ (s.peIn i).GrantScrub c) ∧ s.Granted i := by
  have hg : (s.peIn i).GrantCore c ∨ (s.peIn i).GrantRtab c ∨ (s.peIn i).GrantScrub c := by
    rw [← coreReqReady_iff, ← rtabReqReady_iff, ← scrubReqReady_iff]
    unfold pe at hr
    cases hn : (s.peIn i).normal with
    | false =>
      obtain ⟨evt, he⟩ := hpdcacheCtrlPe_not_normal (c := c) hn
      rw [he] at hr
      contradiction
    | true =>
      rw [hpdcacheCtrlPe_normal hn] at hr ⊢
      simp only [newRequest, Bool.and_eq_true, Bool.or_eq_true] at hr ⊢
      apply or_assoc.1
      rcases hr with (⟨⟨hr, -⟩, -⟩ | ⟨⟨⟨hr, -⟩, -⟩, -⟩) | ⟨⟨⟨hr, -⟩, -⟩, -⟩ <;> exact hr
  refine ⟨hg, ?_⟩
  rcases hg with hg | hg | hg
  · exact h.granted (.inl hg)
  · exact h.granted (.inr hg)
  · exact
      { normal := hg.normal
        not_refill := hg.not_refill
        cmo := fun hb => by
          rw [show s.cmoBusy = false from hg.not_cmo] at hb
          contradiction
        not_err := hg.not_err
        st2 := PeIn.noNop_st2 hg.noNop
        nops := h.nops_of_noNop hg.noNop }

/-- A request that is looked up is granted. -/
theorem Owned.granted_of_match (h : s.Owned) (hm : (s.memIn i).dirMatch = true) : s.Granted i := by
  have hread : (s.pe i).st0ReqCachedirRead = true := hm
  exact (h.granted_of_st0 (by rw [hread]; rfl)).2

/-- What stage 2 registers is written in the directory. -/
theorem Owned.dirRam_of_updt (h : s.Owned) (hu : s.st2.dirUpdtQ.updt = true) :
    (s.step i).mem.dirRam set w =
      if set = s.st2.dirUpdtSetQ ∧ s.st2.dirUpdtWayQ w = true then (s.memIn i).dirUpdtEntry
      else s.mem.dirRam set w := by
  have hb : s.st2Busy = true := by simp [st2Busy, hu]
  obtain ⟨hinit, hrefill, -⟩ := normal_iff.1 (h.st2_normal hb)
  have hwalk : s.cmo.fsmQ.walks = false := by
    by_contra hw
    rw [(h.walk (by simpa using hw)).2.1] at hb
    contradiction
  have hready : (s.pe i).refillReqReady = false := by
    by_contra hr
    rw [Bool.not_eq_false] at hr
    have hd : s.st2.dirUpdtQ.updt = false := (refillReqReady_iff.1 hr).not_dir
    rw [hu] at hd
    contradiction
  have hmatch : (s.memIn i).dirMatch = false := by
    by_contra hm
    rw [Bool.not_eq_false] at hm
    rw [(h.granted_of_match hm).st2] at hb
    contradiction
  obtain ⟨h2, h3, h4⟩ := MissHandler.comb_quiet (i := s.missIn i) hrefill hready
  obtain ⟨h5, h6, h7⟩ := Cmo.comb_quiet (i := s.cmoIn i) hwalk
  exact MemCtrl.dirRam_updt hinit hmatch h2 h3 h4 h5 h6 h7 hu

/-! ## The ways of the misses -/

/-- The refill that writes a way is that of a miss that goes there. -/
theorem refill_mem_holders (hwrite : (s.refill i).writeDir = true) (hset : set = (s.refill i).set)
    (hw : s.miss.refillWay (s.refill i) w = true) : Place.miss .refill ∈ s.holders set w := by
  obtain ⟨x, hx, -, hxset, hxway⟩ := MissHandler.of_completes (i := s.missIn i) hwrite
  exact ⟨.refill, x, rfl, hx, hxset.symm.trans hset.symm,
    hxway.symm.trans (MissHandler.of_refillWay hw)⟩

/-- A walk starts when no miss is left. -/
theorem Booked.missAt_of_walks (hb : s.Booked) (h : s.Owned) (hw : s.cmo.fsmQ.walks = true) :
    s.missAt k = none := by
  have hst2 := (h.walk hw).2.1
  simp only [st2Busy, Bool.or_eq_false_iff] at hst2
  exact missAt_eq_none (hb.walk hw) hst2.1.1

/-- The way of a miss that stays in flight stays booked. -/
theorem Booked.fetch_step (hb : s.Booked) (h : s.Owned) (hs : s.Single) (hspare : s.Spares i)
    (hx : s.missAt k = some x) (hk : s.next i (.miss k) = .miss k')
    (hf : (s.mem.dirRam x.nline.set x.way).fetch = true) :
    (s.step i).BookedAt x.nline.set x.way := by
  have hram : (s.step i).mem.dirRam x.nline.set x.way = s.mem.dirRam x.nline.set x.way ∨ _ :=
    MemCtrl.dirRam_step s.mem (s.memIn i) x.nline.set x.way
  rcases hram with heq | ⟨hn, -⟩ | ⟨hi, hset, hw, -⟩ | ⟨hr, hset, hw, -⟩ | ⟨hu, -⟩ |
    ⟨hu, hset, hw, heq⟩ | ⟨he, hset, hw, heq⟩
  · rw [BookedAt, heq]
    exact .inl hf
  · rw [hb.init k x hx] at hn
    contradiction
  · have hspared := hspare hi x.way hw
    rw [show x.nline.set = s.miss.head.invalNline.set from hset] at hf
    rw [hf] at hspared
    contradiction
  · -- the refill that writes the way is that of the miss
    have hwrite : (s.refill i).writeDir = true := hr
    have hsame := hb.alone x.nline.set x.way ⟨k, x, rfl, hx, rfl, rfl⟩
      (refill_mem_holders hwrite hset hw)
    rw [hsame, next, if_pos hwrite] at hk
    contradiction
  · have hw : s.cmo.fsmQ.walks = true := by
      by_contra hw
      rw [show (s.memIn i).dirCmoUpdt = false from
        (Cmo.comb_quiet (i := s.cmoIn i) (by simpa using hw)).2.2] at hu
      contradiction
    rw [hb.missAt_of_walks h hw] at hx
    contradiction
  · have hentry : (s.step i).mem.dirRam x.nline.set x.way = (s.memIn i).dirUpdtEntry := heq
    rw [BookedAt, hentry]
    cases hfetch : s.st2.dirUpdtQ.fetch with
    | true => exact .inl hfetch
    | false =>
      have hno := (hb.updt hu).2 hfetch x.way hw
      rw [show x.nline.set = s.st2.dirUpdtSetQ from hset] at hf
      rw [hf] at hno
      contradiction
  · have hwrite : (s.err.comb (s.errIn i)).dirWrite = true := he
    obtain ⟨hecc, ⟨hfsm, -⟩ | ⟨hfsm, hm, hd⟩⟩ := ErrFsm.dirWrite_cases hwrite
    · have hbusy : s.err.busy = true := by simp [ErrFsm.busy, hecc, hfsm]
      rcases ErrFsm.busy_of_unc (i := s.errIn i) hbusy (hb.inval hecc hfsm) with hunc | ⟨hwait, -⟩
      · exact .inr (.inr hunc)
      · simp [ErrFsm.wait, hfsm] at hwait
    · have hentry : (s.step i).mem.dirRam x.nline.set x.way = s.err.dirRdataQ := heq.trans hd
      rw [BookedAt, hentry, hs.correct hecc hfsm hm x.way hw]
      rw [show x.nline.set = s.err.setQ from hset] at hf
      exact .inl hf

/-- The miss that stage 1 starts books its victim. -/
theorem Owned.booked_of_misses (h : s.Owned) (hm : (s.dec i).misses = true) :
    (s.step i).BookedAt (s.st1Nline i).set (toBinary c.ways_pos (s.st1VictimWay i)) := by
  have hmiss := misses_of_dec hm
  have hpe := (h.pe_agrees (i := i)).dirUpdt
  have hdir : (s.pe i).st2DirUpdt.updt = true ∧ (s.pe i).st2DirUpdt.fetch = true := by
    rw [hpe]
    cases hd : s.dec i <;> rw [hd] at hm <;> first | exact ⟨rfl, rfl⟩ | contradiction
  obtain ⟨w, hw⟩ := any_eq_true.1 hmiss.victim
  have hone : toBinary c.ways_pos (s.st1VictimWay i) = w :=
    OneHot.toBinary Victim.oneHot_selVictimWay c.ways_pos hw
  have hway : s.st1Way i = s.st1VictimWay i := by
    rw [st1Way, hmiss.miss]
    rfl
  have hload : (s.step i).st2 = s.stepSt2 i := rfl
  rw [BookedAt, hload, hone]
  refine .inr (.inl ?_)
  simp [stepSt2, hdir.1, hdir.2, hway, hw, st1Nline, CtrlReq.nline]

/-- A way that stage 1 takes for a miss is not booked. -/
theorem Booked.not_holder (hb : s.Booked) (h : s.Owned) (hl : s.Looked)
    (hm : (s.dec i).misses = true) :
    s.holders (s.st1Nline i).set (toBinary c.ways_pos (s.st1VictimWay i)) = ∅ := by
  have hmiss := misses_of_dec hm
  have hc := hmiss.sound.toCacheable
  have hv : s.st1.reqValidQ = true := hc.valid
  have hop : s.st1.reqQ.req.op.isCmoWalk = false := by
    rw [← st1Req_op (i := i)]
    exact hc.not_cmo
  obtain ⟨w, hw⟩ := any_eq_true.1 hmiss.victim
  have hone : toBinary c.ways_pos (s.st1VictimWay i) = w :=
    OneHot.toBinary Victim.oneHot_selVictimWay c.ways_pos hw
  rw [hone]
  apply Set.eq_empty_iff_forall_notMem.2
  rintro p ⟨k, x, -, hx, hset, hway⟩
  rcases hb.held k x hx with hf | ⟨hu, -⟩ | ⟨he, -⟩
  · have hnot : (s.mem.dirRentry w).fetch = false := Victim.selVictimWay_not_fetch hw
    rw [hl.dir hv (isError_eq hc.toProceeds) hop w] at hnot
    rw [hset, hway, st1Nline_set, hnot] at hf
    contradiction
  · have hst2 := h.st1_st2 hv
    simp [st2Busy, hu] at hst2
  · rw [(h.err he).1] at hv
    contradiction

theorem Booked.held_step (hb : s.Booked) (h : s.Owned) (hroom : s.Roomy) (hs : s.Single)
    (hspare : s.Spares i)
    (hack : (s.refill i).ack = true → s.miss.mshr.validQ s.miss.head.rSet s.miss.head.rWay = true)
    (hx : (s.step i).missAt k = some x) : (s.step i).BookedAt x.nline.set x.way := by
  rcases miss_step h hroom hack hx with ⟨k', hx', hk'⟩ | ⟨-, hm, rfl⟩
  · rcases hb.held k' x hx' with hf | ⟨hu, hfetch, hset, hway⟩ | ⟨he, hunc⟩
    · exact hb.fetch_step h hs hspare hx' hk' hf
    · left
      rw [h.dirRam_of_updt hu, if_pos ⟨hset.symm, hway⟩]
      exact hfetch
    · rcases ErrFsm.busy_of_unc (i := s.errIn i) he hunc with hbusy | ⟨-, hempty⟩
      · exact .inr (.inr hbusy)
      · have hst2 := (h.err he).2
        simp only [st2Busy, Bool.or_eq_false_iff] at hst2
        rw [missAt_eq_none hempty hst2.1.1] at hx'
        contradiction
  · exact h.booked_of_misses hm

theorem Booked.alone_step (hb : s.Booked) (h : s.Owned) (hl : s.Looked) (hroom : s.Roomy)
    (hack : (s.refill i).ack = true → s.miss.mshr.validQ s.miss.head.rSet s.miss.head.rWay = true) :
    ((s.step i).holders set w).Subsingleton := by
  apply subsingleton_of_moves (s.next i) (.miss .st2) (hb.alone set w)
  intro p hp
  obtain ⟨k, x, rfl, hx, rfl, rfl⟩ := hp
  rcases miss_step h hroom hack hx with ⟨k', hx', hk'⟩ | ⟨rfl, hm, rfl⟩
  · exact .inl ⟨.miss k', ⟨k', x, rfl, hx', rfl, rfl⟩, hk'⟩
  · exact .inr ⟨rfl, hb.not_holder h hl hm⟩

theorem Booked.init_step (hb : s.Booked) (h : s.Owned) (hroom : s.Roomy)
    (hack : (s.refill i).ack = true → s.miss.mshr.validQ s.miss.head.rSet s.miss.head.rWay = true)
    (hx : (s.step i).missAt k = some x) : (s.step i).mem.initQ = true := by
  apply initQ_step
  rcases miss_step h hroom hack hx with ⟨k', hx', -⟩ | ⟨-, hm, -⟩
  · exact hb.init k' x hx'
  · exact (normal_iff.1 (h.st1_normal (misses_of_dec hm).sound.valid)).1

/-- No miss is left in the cycle after one in which none was. -/
theorem mshrEmpty_step (he : s.mshrEmpty = true) (hst2 : s.st2.mshrAllocQ = false)
    (hr : (s.step i).miss.refillBusy = false) : (s.step i).mshrEmpty = true := by
  simp only [mshrEmpty, MissHandler.empty, Bool.and_eq_true] at he
  simp [mshrEmpty, MissHandler.empty, mshr_empty_step hst2 he.1, hr]

theorem Booked.walk_step (hb : s.Booked) (h : s.Owned) (ht : (s.step i).Tracked)
    (hw : (s.step i).cmo.fsmQ.walks = true) : (s.step i).mshrEmpty = true := by
  have hr := ht.refill hw
  rcases Cmo.walks_step hw with hw' | ⟨-, hmshr, -, hctrl⟩
  · have hst2 := (h.walk hw').2.1
    simp only [st2Busy, Bool.or_eq_false_iff] at hst2
    exact mshrEmpty_step (hb.walk hw') hst2.1.1 hr
  · have hctrl' : s.ctrlEmpty = true := hctrl
    simp only [ctrlEmpty, Bool.and_eq_true, Bool.not_eq_true', Bool.or_eq_false_iff] at hctrl'
    exact mshrEmpty_step hmshr hctrl'.2.1.1 hr

/-- The lines that wait for their refill are clean. -/
theorem Booked.clean_step (hb : s.Booked) (hs : s.Single)
    (hinit : (s.step i).mem.initQ = true ∨ set.val < (s.step i).mem.initSetQ.val)
    (hf : ((s.step i).mem.dirRam set w).fetch = true) :
    ((s.step i).mem.dirRam set w).dirty = false := by
  have hram : (s.step i).mem.dirRam set w = .zero ∨ _ := MemCtrl.dirRam_cases hinit
  rcases hram with heq | ⟨hi, heq⟩ | ⟨hn, ⟨-, -, -, heq⟩ | ⟨-, -, -, heq⟩ | ⟨hu, -, -, heq⟩ |
    ⟨he, hset, hway, heq⟩⟩
  · rw [heq]
    rfl
  · have hentry : (s.step i).mem.dirRam set w = s.mem.dirRam set w := heq
    rw [hentry] at hf ⊢
    exact hb.clean set w hi hf
  · rw [show (s.step i).mem.dirRam set w = s.miss.refillDirEntry from heq] at hf
    contradiction
  · have hentry : (s.step i).mem.dirRam set w = (s.cmoOut i).dirUpdtEntry := heq
    have hnone : (s.cmoOut i).dirUpdtEntry.fetch = false :=
      Cmo.dirUpdtEntry_fetch s.cmo (s.cmoIn i)
    rw [hentry, hnone] at hf
    contradiction
  · have hentry : (s.step i).mem.dirRam set w = (s.memIn i).dirUpdtEntry := heq
    rw [hentry] at hf ⊢
    exact (hb.updt hu).1 hf
  · have hwrite : (s.err.comb (s.errIn i)).dirWrite = true := he
    have hentry : (s.step i).mem.dirRam set w = (s.memIn i).dirErrWdata := heq
    rw [hentry] at hf ⊢
    obtain ⟨hecc, ⟨-, hz⟩ | ⟨hfsm, hm, hd⟩⟩ := ErrFsm.dirWrite_cases hwrite
    · rw [show (s.memIn i).dirErrWdata = .zero from hz]
      rfl
    · rw [show (s.memIn i).dirErrWdata = s.err.dirRdataQ from hd,
        hs.correct hecc hfsm hm w hway] at hf ⊢
      exact hb.clean _ w (.inl hn) hf

/-- An update of the directory clears no fetch bit. -/
theorem Booked.updt_step (hb : s.Booked) (hs : s.Single) (h : s.Owned) (hl : s.Looked)
    (hu : (s.step i).st2.dirUpdtQ.updt = true) :
    ((s.step i).st2.dirUpdtQ.fetch = true → (s.step i).st2.dirUpdtQ.dirty = false) ∧
      ((s.step i).st2.dirUpdtQ.fetch = false → ∀ w, (s.step i).st2.dirUpdtWayQ w = true →
        ((s.step i).mem.dirRam (s.step i).st2.dirUpdtSetQ w).fetch = false) := by
  have hpe := (h.pe_agrees (i := i)).dirUpdt
  have hstep : (s.step i).st2.dirUpdtQ = if (s.pe i).st2DirUpdt.updt then (s.pe i).st2DirUpdt
    else { s.st2.dirUpdtQ with updt := false } := rfl
  have hupdt : (s.pe i).st2DirUpdt.updt = true := by
    by_contra hn
    rw [hstep, if_neg hn] at hu
    contradiction
  have hreg : (s.step i).st2.dirUpdtSetQ = (s.st1Req i).req.addrSet ∧
      (s.step i).st2.dirUpdtWayQ = s.st1Way i := by
    have hload : (s.step i).st2 = s.stepSt2 i := rfl
    rw [hload]
    simp [stepSt2, hupdt]
  rw [hstep, if_pos hupdt, hpe, hreg.1, hreg.2]
  rw [hpe] at hupdt
  obtain ⟨hclean, hkeep⟩ := Decision.fetch_of_updt dec_guard hupdt
  refine ⟨hclean, fun hf w hw => ?_⟩
  obtain ⟨hp, hcmo⟩ := Decision.proceeds_of_updt dec_guard hupdt
  obtain ⟨hhit, hline⟩ := hkeep hf
  have hop : s.st1.reqQ.req.op.isCmoWalk = false := by
    rw [← st1Req_op (i := i)]
    exact hcmo
  have hdir (w : Fin c.ways) := hl.dir hp.valid (isError_eq hp) hop w
  have hway : s.st1HitWay i w = true := by
    rw [st1Way, if_pos (show s.st1DirHit i = true from hhit)] at hw
    exact hw
  have hone : OneHot (s.st1HitWay i) := hs.oneHot_hit h hl hp hcmo
  rw [st1Req_set, h.dirRam_of_st1 hp.valid, ← hdir w]
  rcases hline with hfetch | hdirty
  · have hflag : s.mem.flag (s.st1HitWay i) DirEntry.fetch = false := hfetch
    by_contra hn
    rw [← Bool.not_eq_true, MemCtrl.flag, any_eq_true] at hflag
    rw [Bool.not_eq_false] at hn
    exact hflag ⟨w, by simp [hway, hn]⟩
  · -- a dirty line has no fetch bit
    have hflag : s.mem.flag (s.st1HitWay i) DirEntry.dirty = true := hdirty
    rw [MemCtrl.flag, any_eq_true] at hflag
    obtain ⟨v, hv⟩ := hflag
    rw [Bool.and_eq_true] at hv
    obtain rfl := hone w v hway hv.1
    by_contra hn
    have hinit := (normal_iff.1 (h.st1_normal hp.valid)).1
    rw [hdir w] at hn hv
    rw [hb.clean _ w (.inl hinit) (by simpa using hn)] at hv
    exact absurd hv.2 Bool.false_ne_true

/-- A cycle in which no invalidation clears a booked way keeps the misses in their ways. -/
theorem Booked.step (hb : s.Booked) (hs : s.Single) (h : s.WalkInv) (h' : (s.step i).WalkInv)
    (hspare : s.Spares i)
    (hack : (s.refill i).ack = true → s.miss.mshr.validQ s.miss.head.rSet s.miss.head.rWay = true) :
    (s.step i).Booked where
  alone _ _ := hb.alone_step h.owned h.looked h.roomy hack
  held _ _ := hb.held_step h.owned h.roomy hs hspare hack
  init _ _ := hb.init_step h.owned h.roomy hack
  walk := hb.walk_step h.owned h'.tracked
  inval := ErrFsm.unc_of_inval
  clean _ _ := hb.clean_step hs
  updt := hb.updt_step hs h.owned h.looked

end Cache

/-! ## Runs -/

namespace MissMap

variable {s : MissMap c} {i : CacheIn c}

/-- The memory answers each miss once, no refill starts with a walk, and no invalidation of the
network clears a booked way. -/
structure Spared (s : MissMap c) (i : CacheIn c) : Prop where
  steady : s.Steady i
  spares : s.cache.Spares i

instance (s : MissMap c) (i : CacheIn c) : Decidable (s.Spared i) :=
  decidable_of_iff (s.Steady i ∧ s.cache.Spares i)
    ⟨fun h => ⟨h.1, h.2⟩, fun h => ⟨h.steady, h.spares⟩⟩

/-- The invariants of the cache, of its misses and of their ways. -/
structure BookedInv (s : MissMap c) : Prop extends Settled s where
  booked : s.cache.Booked

theorem BookedInv.step (h : s.BookedInv) (hs : s.Spared i) : (s.step i).BookedInv where
  toSettled := h.toSettled.step hs.steady
  booked :=
    h.booked.step h.single h.walk (h.walk.step hs.steady.steady) hs.spares h.map.valid_of_ack

theorem bookedInv_run {u : Cache c} {is : List (CacheIn c)}
    (hr : Along step Spared (start u) is) : (run step (start u) is).BookedInv :=
  hr.invariant (⟨settled_start u, Cache.booked_reset u⟩ : (start u).BookedInv) fun _ _ =>
    BookedInv.step

/-- In every state of such a run the misses in flight go to different ways, and the way of each of
them is booked. -/
theorem booked_run (u : Cache c) (is : List (CacheIn c)) (hr : Along step Spared (start u) is) :
    let t := (run step (start u) is).cache
    (∀ k k' x x', t.missAt k = some x → t.missAt k' = some x' →
      x.nline.set = x'.nline.set → x.way = x'.way → k = k') ∧
      ∀ k x, t.missAt k = some x → t.BookedAt x.nline.set x.way := by
  have hb := (bookedInv_run hr).booked
  refine ⟨?_, hb.held⟩
  intro k k' x x' hx hx' hset hway
  have hsame := hb.alone x'.nline.set x'.way ⟨k, x, rfl, hx, hset, hway⟩ ⟨k', x', rfl, hx', rfl, rfl⟩
  exact Place.miss.inj hsame

end MissMap

/-! ## Two misses in a way -/

/-- A cache with one way. -/
def directCfg : Cfg :=
  { lowLatencyCfg with
    ways := 1
    ways_pos := Nat.one_pos
    dataWaysPerRamWord_dvd := Nat.dvd_refl 1 }

def directSet : Fin directCfg.sets := ⟨0, directCfg.sets_pos⟩

def directWay : Fin directCfg.ways := ⟨0, directCfg.ways_pos⟩

/-- A load of the set, cacheable or not. -/
def CacheIn.load (tag : Nat) (uncacheable : Bool) : CacheIn directCfg :=
  .ask (.access .load tag uncacheable)

/-- The memory answers the first miss, or the network invalidates a line. -/
def CacheIn.answer (isInval : Bool) (tag : Nat) : CacheIn directCfg :=
  { CacheIn.idle directCfg with
    missResp :=
      some ⟨false, ⟨0, directCfg.mshrSets_pos⟩, ⟨0, directCfg.mshrWays_pos⟩, isInval,
        ⟨tag, directSet⟩, fun _ => 0⟩ }

/-- A line is loaded, and a second one misses. -/
def loadTwice : List (CacheIn directCfg) :=
  [.idle _, .idle _, .load 1 false, .idle _, .idle _, .answer false 0, .idle _, .idle _, .idle _,
    .load 2 false, .idle _, .idle _]

/-- The network invalidates the first line, and a third one misses. -/
def invalThenLoad : List (CacheIn directCfg) :=
  [.answer true 1, .idle _, .idle _, .idle _, .load 3 false, .idle _, .idle _, .idle _]

/-- An entry of the MSHR for the set. -/
def directSlot (b : Fin directCfg.mshrWays) : MissSlot directCfg :=
  .mshr ⟨0, directCfg.mshrSets_pos⟩ b

namespace MissMap

theorem booked_loadTwice :
    let t := (run step (start (Cache.blank directCfg)) loadTwice).cache
    (∀ k k' x x', t.missAt k = some x → t.missAt k' = some x' →
      x.nline.set = x'.nline.set → x.way = x'.way → k = k') ∧
      ∀ k x, t.missAt k = some x → t.BookedAt x.nline.set x.way :=
  booked_run _ _ (by decide +kernel)

/-- The way of the second miss is given to the third one as well, after the invalidation of the line
that was there. -/
theorem invalThenLoad_not_booked :
    Along step Steady (start (Cache.blank directCfg)) (loadTwice ++ invalThenLoad) ∧
      ¬ (run step (start (Cache.blank directCfg)) (loadTwice ++ invalThenLoad)).cache.Booked := by
  refine ⟨by decide +kernel, ?_⟩
  intro hb
  have hmiss : ∀ b : Fin directCfg.mshrWays,
      ((run step (start (Cache.blank directCfg)) (loadTwice ++ invalThenLoad)).cache.missAt
        (directSlot b)).map (fun x => (x.nline.set, x.way)) = some (directSet, directWay) := by
    decide +kernel
  obtain ⟨x, hx, hplace⟩ := Option.map_eq_some_iff.1 (hmiss ⟨0, directCfg.mshrWays_pos⟩)
  obtain ⟨y, hy, hplace'⟩ := Option.map_eq_some_iff.1 (hmiss ⟨1, by decide⟩)
  rw [Prod.mk.injEq] at hplace hplace'
  have hsame := hb.alone directSet directWay ⟨_, x, rfl, hx, hplace⟩ ⟨_, y, rfl, hy, hplace'⟩
  simp [directSlot] at hsame

end MissMap

end Hpdcache
