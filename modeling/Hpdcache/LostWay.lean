import Hpdcache.Booked

/-!
# Lost ways

An uncacheable request that hits a clean line clears the entry of the line, with the fetch bit that
the last update of stage 2 had. When that bit is set, as it is after a miss, no miss is on its way
to the entry: the way holds no line, and is no victim, until the CMO handler or the recovery writes
it.

* `Cache.Lost` — a way that is no victim and has no miss.
* `Cache.Lost.step` — it stays so.
* `MissMap.lost_run` — the way of the line is lost.
-/

namespace Hpdcache

open Hw

variable {c : Cfg}

namespace Cache

variable {s : Cache c} {i : CacheIn c} {set : Fin c.sets} {w : Fin c.ways}

/-- The way has the fetch bit, no line and no miss. -/
structure Lost (s : Cache c) (set : Fin c.sets) (w : Fin c.ways) : Prop where
  init : s.mem.initQ = true
  entry : (s.mem.dirRam set w).fetch = true ∧ (s.mem.dirRam set w).valid = false
  free : s.holders set w = ∅
  updt : s.st2.dirUpdtQ.updt = true → s.st2.dirUpdtSetQ = set → s.st2.dirUpdtWayQ w = false

/-- Neither the CMO handler nor the recovery writes the directory. -/
def Undisturbed (s : Cache c) (i : CacheIn c) : Prop :=
  (s.cmoOut i).dirUpdt = false ∧ (s.err.comb (s.errIn i)).dirWrite = false

instance (s : Cache c) (i : CacheIn c) : Decidable (s.Undisturbed i) :=
  inferInstanceAs (Decidable (_ ∧ _))

/-! ## The misses -/

/-- A way that no miss in flight goes to stays so, unless stage 1 takes it. -/
theorem holders_step (h : s.Owned) (hroom : s.Roomy)
    (hack : (s.refill i).ack = true → s.miss.mshr.validQ s.miss.head.rSet s.miss.head.rWay = true)
    (hfree : s.holders set w = ∅)
    (hnew : (s.dec i).misses = true → (s.st1Nline i).set = set →
      toBinary c.ways_pos (s.st1VictimWay i) ≠ w) : (s.step i).holders set w = ∅ := by
  apply Set.eq_empty_iff_forall_notMem.2
  rintro p ⟨k, x, -, hx, hset, hway⟩
  rcases miss_step h hroom hack hx with ⟨k', hx', -⟩ | ⟨-, hm, rfl⟩
  · have hmem : Place.miss k' ∈ s.holders set w := ⟨k', x, rfl, hx', hset, hway⟩
    rw [hfree] at hmem
    exact hmem
  · exact hnew hm hset hway

/-- The way that stage 1 updates has a line, or is free. -/
theorem dirRentry_of_st1Way (hw : s.st1Way i w = true) :
    (s.mem.dirRentry w).valid = true ∨ (s.mem.dirRentry w).fetch = false := by
  unfold st1Way at hw
  split_ifs at hw
  · rw [st1HitWay, MemCtrl.hitWay, Bool.and_eq_true] at hw
    exact .inl hw.1
  · exact .inr (Victim.selVictimWay_not_fetch hw)

/-- Stage 1 neither updates nor takes a lost way. -/
theorem Lost.not_taken (hl : s.Lost set w) (hlook : s.Looked) (hp : (s.peIn i).Proceeds)
    (hcmo : (s.st1Req i).req.op.isCmoWalk = false) (hset : (s.st1Req i).req.addrSet = set) :
    s.st1Way i w = false := by
  rw [st1Req_op] at hcmo
  rw [st1Req_set] at hset
  have hdir := hlook.dir hp.valid (isError_eq hp) hcmo w
  rw [hset] at hdir
  by_contra hw
  rw [Bool.not_eq_false] at hw
  rcases dirRentry_of_st1Way hw with hv | hf
  · rw [hdir, hl.entry.2] at hv
    contradiction
  · rw [hdir, hl.entry.1] at hf
    contradiction

theorem Lost.free_step (hl : s.Lost set w) (h : s.Owned) (hlook : s.Looked) (hroom : s.Roomy)
    (hack : (s.refill i).ack = true → s.miss.mshr.validQ s.miss.head.rSet s.miss.head.rWay = true) :
    (s.step i).holders set w = ∅ := by
  refine holders_step h hroom hack hl.free fun hm hset hway => ?_
  have hmiss := misses_of_dec hm
  have hc := hmiss.sound.toCacheable
  obtain ⟨v, hv⟩ := any_eq_true.1 hmiss.victim
  have hone : toBinary c.ways_pos (s.st1VictimWay i) = v :=
    OneHot.toBinary Victim.oneHot_selVictimWay c.ways_pos hv
  have hst1 : s.st1Way i w = true := by
    have hmiss' : s.st1DirHit i = false := hmiss.miss
    rw [st1Way, hmiss', ← hway, hone]
    exact hv
  rw [hl.not_taken hlook hc.toProceeds hc.not_cmo hset] at hst1
  contradiction

/-- No update of a lost way is registered for stage 2. -/
theorem Lost.updt_step (hl : s.Lost set w) (h : s.Owned) (hlook : s.Looked)
    (hu : (s.step i).st2.dirUpdtQ.updt = true) (hset : (s.step i).st2.dirUpdtSetQ = set) :
    (s.step i).st2.dirUpdtWayQ w = false := by
  have hpe := (h.pe_agrees (i := i)).dirUpdt
  have hstep : (s.step i).st2.dirUpdtQ = if (s.pe i).st2DirUpdt.updt then (s.pe i).st2DirUpdt
    else { s.st2.dirUpdtQ with updt := false } := rfl
  have hupdt : (s.pe i).st2DirUpdt.updt = true := by
    by_contra hn
    rw [hstep, if_neg hn] at hu
    contradiction
  have hreg : (s.step i).st2.dirUpdtSetQ = (s.st1Req i).req.addrSet ∧
      (s.step i).st2.dirUpdtWayQ = s.st1Way i := by
    have hload : (s.step i).st2 = s.stepSt2 i := rfl
    rw [hload]
    simp [stepSt2, hupdt]
  rw [hpe] at hupdt
  obtain ⟨hp, hcmo⟩ := Decision.proceeds_of_updt dec_guard hupdt
  rw [hreg.2]
  exact hl.not_taken hlook hp hcmo (hreg.1.symm.trans hset)

/-! ## The directory -/

theorem Lost.entry_step (hl : s.Lost set w) (hspare : s.Spares i) (hq : s.Undisturbed i) :
    (s.step i).mem.dirRam set w = s.mem.dirRam set w := by
  rcases MemCtrl.dirRam_step s.mem (s.memIn i) set w with heq | ⟨hn, -⟩ | ⟨hi, hset, hw, -⟩ |
    ⟨hr, hset, hw, -⟩ | ⟨hu, -⟩ | ⟨hu, hset, hw, -⟩ | ⟨he, -⟩
  · exact heq
  · rw [hl.init] at hn
    contradiction
  · have hspared := hspare hi w hw
    rw [← show set = s.miss.head.invalNline.set from hset, hl.entry.1] at hspared
    contradiction
  · -- no refill goes to the way
    have hmem := refill_mem_holders (s := s) (i := i) hr hset hw
    rw [hl.free] at hmem
    exact hmem.elim
  · rw [show (s.memIn i).dirCmoUpdt = false from hq.1] at hu
    contradiction
  · have hno := hl.updt hu (show set = s.st2.dirUpdtSetQ from hset).symm
    rw [show s.st2.dirUpdtWayQ w = true from hw] at hno
    contradiction
  · rw [show (s.memIn i).dirErrWrite = false from hq.2] at he
    contradiction

/-- A lost way stays lost. -/
theorem Lost.step (hl : s.Lost set w) (h : s.Inv) (hspare : s.Spares i) (hq : s.Undisturbed i)
    (hack : (s.refill i).ack = true → s.miss.mshr.validQ s.miss.head.rSet s.miss.head.rWay = true) :
    (s.step i).Lost set w where
  init := initQ_step hl.init
  entry := by
    rw [hl.entry_step hspare hq]
    exact hl.entry
  free := hl.free_step h.owned h.looked h.roomy hack
  updt := hl.updt_step h.owned h.looked

/-! ## The loss -/

/-- No miss goes to the way of a line that is hit and has no fetch bit. -/
theorem Booked.free_of_hit (hb : s.Booked) (h : s.Owned) (hl : s.Looked)
    (hp : (s.peIn i).Proceeds) (hcmo : (s.st1Req i).req.op.isCmoWalk = false)
    (hf : (s.peIn i).st1DirHitFetch = false) (hw : s.st1HitWay i w = true) :
    s.holders (s.st1Nline i).set w = ∅ := by
  apply Set.eq_empty_iff_forall_notMem.2
  rintro p ⟨k, x, -, hx, hset, hway⟩
  rw [st1Req_op] at hcmo
  rcases hb.held k x hx with hfetch | ⟨hu, -⟩ | ⟨he, -⟩
  · have hdir := hl.dir hp.valid (isError_eq hp) hcmo w
    rw [hset, hway, st1Nline_set, ← hdir] at hfetch
    have hflag : s.mem.flag (s.st1HitWay i) DirEntry.fetch = true :=
      any_eq_true.2 ⟨w, by simp [hw, hfetch]⟩
    rw [show s.mem.flag (s.st1HitWay i) DirEntry.fetch = false from hf] at hflag
    contradiction
  · have hst2 := h.st1_st2 hp.valid
    simp [st2Busy, hu] at hst2
  · have hv : s.st1.reqValidQ = true := hp.valid
    rw [(h.err he).1] at hv
    contradiction

/-- The update that clears the entry of a clean line keeps the fetch bit of the register. -/
theorem Owned.updt_of_ucSendInval (h : s.Owned) (hd : s.dec i = .ucSendInval) :
    (s.step i).st2.dirUpdtQ = ⟨true, false, false, false, s.st2.dirUpdtQ.fetch⟩ ∧
      (s.step i).st2.dirUpdtSetQ = (s.st1Nline i).set ∧
      (s.step i).st2.dirUpdtWayQ = s.st1HitWay i := by
  have hpe := (h.pe_agrees (i := i)).dirUpdt
  rw [hd] at hpe
  have hreg : (s.pe i).st2DirUpdt = ⟨true, false, false, false, s.st2.dirUpdtQ.fetch⟩ := hpe
  have hg := dec_guard (s := s) (i := i)
  rw [hd] at hg
  have hhit : s.st1DirHit i = true := hg.2.2.1
  have hload : (s.step i).st2 = s.stepSt2 i := rfl
  rw [hload]
  simp [stepSt2, hreg, st1Way, hhit, st1Nline, CtrlReq.nline]

/-- The way of a clean line that an uncacheable request hits is lost after its entry is written, if
the last update of the directory had the fetch bit. -/
theorem Booked.lost (hb : s.Booked) (h : s.Inv) (h' : (s.step i).Inv)
    (hack : (s.refill i).ack = true → s.miss.mshr.validQ s.miss.head.rSet s.miss.head.rWay = true)
    {j : CacheIn c}
    (hack' : ((s.step i).refill j).ack = true →
      (s.step i).miss.mshr.validQ (s.step i).miss.head.rSet (s.step i).miss.head.rWay = true)
    (hd : s.dec i = .ucSendInval) (hf : s.st2.dirUpdtQ.fetch = true)
    (hw : s.st1HitWay i w = true) : ((s.step i).step j).Lost (s.st1Nline i).set w := by
  have hg := dec_guard (s := s) (i := i)
  rw [hd] at hg
  obtain ⟨hu, -, -, -, hfetch⟩ := hg
  obtain ⟨hreg, hset, hway⟩ := h.owned.updt_of_ucSendInval hd
  rw [hf] at hreg
  have hupdt : (s.step i).st2.dirUpdtQ.updt = true := by rw [hreg]
  -- nothing is in stage 1 while the entry is written
  have hv : (s.step i).st1.reqValidQ = false := by
    by_contra hv
    have hst2 := h'.owned.st1_st2 (by simpa using hv)
    simp [st2Busy, hupdt] at hst2
  have hidle : (s.step i).dec j = .idle := idle_of_not_valid hv
  have hentry : ((s.step i).step j).mem.dirRam (s.st1Nline i).set w =
      ((s.step i).memIn j).dirUpdtEntry := by
    rw [h'.owned.dirRam_of_updt hupdt, hset, hway]
    exact if_pos ⟨rfl, hw⟩
  have hentry' : ((s.step i).memIn j).dirUpdtEntry =
      ⟨false, false, false, true, (s.step i).st2.dirUpdtTagQ⟩ := by
    show (⟨(s.step i).st2.dirUpdtQ.valid, _, _, _, _⟩ : DirEntry) = _
    rw [hreg]
  constructor
  · exact initQ_step (initQ_step (normal_iff.1 (h.owned.st1_normal hu.valid)).1)
  · rw [hentry, hentry']
    exact ⟨rfl, rfl⟩
  · apply holders_step h'.owned h'.roomy hack'
    · apply holders_step h.owned h.roomy hack
      · exact hb.free_of_hit h.owned h.looked hu.toProceeds hu.not_cmo hfetch hw
      · intro hm
        rw [hd] at hm
        contradiction
    · intro hm
      rw [hidle] at hm
      contradiction
  · intro hu'
    have hpe := (h'.owned.pe_agrees (i := j)).dirUpdt
    rw [hidle] at hpe
    have hnone : ((s.step i).pe j).st2DirUpdt.updt = false := by rw [hpe]; rfl
    have hstep : ((s.step i).step j).st2.dirUpdtQ =
        if ((s.step i).pe j).st2DirUpdt.updt then ((s.step i).pe j).st2DirUpdt
        else { (s.step i).st2.dirUpdtQ with updt := false } := rfl
    rw [hstep, hnone] at hu'
    contradiction

end Cache

/-! ## Runs -/

namespace MissMap

variable {s : MissMap c} {i : CacheIn c} {set : Fin c.sets} {w : Fin c.ways}

/-- The invariants of the cache, and a way that is lost. -/
structure LostInv (s : MissMap c) (set : Fin c.sets) (w : Fin c.ways) : Prop
    extends BookedInv s where
  lost : s.cache.Lost set w

theorem LostInv.step (h : s.LostInv set w) (hs : s.Spared i ∧ s.cache.Undisturbed i) :
    (s.step i).LostInv set w where
  toBookedInv := h.toBookedInv.step hs.1
  lost := h.lost.step h.walk.toInv hs.1.spares hs.2 h.map.valid_of_ack

/-- The way of a clean line that an uncacheable request clears, when the last update of the
directory had the fetch bit, has no line and no miss in any cycle after, as long as neither the CMO
handler nor the recovery writes the directory. -/
theorem lost_run (u : Cache c) (is js : List (CacheIn c)) (i j : CacheIn c)
    (hr : Along step Spared (start u) (is ++ i :: j :: js))
    (hq : Along step (fun t k => t.cache.Undisturbed k) (run step (start u) (is ++ [i, j])) js)
    (hd : (run step (start u) is).cache.dec i = .ucSendInval)
    (hf : (run step (start u) is).cache.st2.dirUpdtQ.fetch = true)
    (hw : (run step (start u) is).cache.st1HitWay i w = true) :
    (run step (start u) (is ++ i :: j :: js)).cache.Lost
      ((run step (start u) is).cache.st1Nline i).set w := by
  obtain ⟨hris, hri, hrj, hrjs⟩ := along_append.1 hr
  have h := bookedInv_run hris
  have h' := h.step hri
  have hlost : (step (step (run step (start u) is) i) j).cache.Lost
      ((run step (start u) is).cache.st1Nline i).set w :=
    h.booked.lost h.walk.toInv h'.walk.toInv h.map.valid_of_ack h'.map.valid_of_ack hd hf hw
  have hinv : (step (step (run step (start u) is) i) j).LostInv
      ((run step (start u) is).cache.st1Nline i).set w := ⟨h'.step hrj, hlost⟩
  rw [run_append] at hq ⊢
  exact ((hrjs.and hq).invariant hinv fun _ _ => LostInv.step).lost

end MissMap

/-! ## A load that loses its way -/

/-- A line is loaded, and loaded again as an uncacheable one. -/
def loadThenUncached : List (CacheIn directCfg) :=
  [.idle _, .idle _, .load 1 false, .idle _, .idle _, .answer false 0, .idle _, .idle _, .idle _,
    .load 1 true]

/-- The memory answers the uncacheable load. -/
def CacheIn.ucData : CacheIn directCfg :=
  { CacheIn.idle directCfg with ucRead := some ⟨false, fun _ => 0⟩ }

/-- The uncacheable load ends, and a load of the same set follows. -/
def loadAfter : List (CacheIn directCfg) :=
  [.idle _, .ucData, .idle _, .idle _, .load 2 false, .idle _, .idle _, .idle _]

namespace MissMap

theorem lost_loadThenUncached :
    (run step (start (Cache.blank directCfg))
      (loadThenUncached ++ .idle _ :: .idle _ :: loadAfter)).cache.Lost directSet directWay :=
  lost_run _ loadThenUncached loadAfter (.idle _) (.idle _) (by decide +kernel) (by decide +kernel)
    (by decide +kernel) (by decide +kernel) (by decide +kernel)

/-- The load that follows is put on hold, and nothing is in flight that would wake it up. -/
example :
    let t := (run step (start (Cache.blank directCfg))
      (loadThenUncached ++ .idle _ :: .idle _ :: loadAfter)).cache
    t.rtab.empty = false ∧ t.noPendTrans = true ∧ t.uc.ready = true := by
  decide +kernel

end MissMap

end Hpdcache
