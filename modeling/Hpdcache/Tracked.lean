import Hpdcache.Sweep
import Hpdcache.Isolation

/-!
# The tracked sets

Every valid and every dirty line is in its interval, so that a walk, which goes over an interval
only, misses no line.

**Requirement.** The refill FSM is not given the pipeline in the cycle in which a walk starts
(`Cache.Apart`): a network invalidation that is granted then takes the directory port from the first
access of the walk.

* `Cache.Tracked` — the invariant.
* `Cache.Tracked.step` — a cycle keeps it.
-/

namespace Hpdcache

open Hw

variable {c : Cfg}

/-- The request that updates a valid line in stage 2 has found one in its set. -/
theorem Decision.cacheable_of_updt {d : Decision} {p : PeIn} (hg : d.Guard c p)
    (hu : (d.dirUpdt p).updt = true) (hv : (d.dirUpdt p).valid = true) :
    p.Cacheable ∧ (p.cachedirHit = true ∨ p.st1DirVictimValid = true) := by
  cases d <;> simp [Decision.dirUpdt] at hu hv
  case amoSendHit => exact ⟨hg.1.toCacheable, .inl hg.2.2.2.1⟩
  case amoFlush => exact ⟨hg.1.toCacheable, .inl hg.2.2.2.1⟩
  case loadMiss => exact ⟨hg.1.toCacheable, .inr hv⟩
  case storeMiss => exact ⟨hg.1.toCacheable, .inr hv⟩
  case storeMissHold => exact ⟨hg.1.toCacheable, .inr hv⟩
  case loadHitToWt => exact ⟨hg.1.toCacheable, .inl hg.1.hit⟩
  case loadHitToWb => exact ⟨hg.1.toCacheable, .inl hg.1.hit⟩
  case storeHitToDirty => exact ⟨hg.1.toCacheable, .inl hg.1.hit⟩
  case storeFlush => exact ⟨hg.1.toCacheable, .inl hg.1.hit⟩

namespace Cmo

variable {m : Cmo c} {set : Fin c.sets} {e : DirEntry}

/-- What an operation is to leave of an entry: no line if it invalidates, no dirty line if it
flushes. -/
def Leaves (m : Cmo c) (set : Fin c.sets) (e : DirEntry) : Prop :=
  match m.opQ with
  | .cmoInvalNline | .cmoFlushInvalNline =>
    e.valid = true → (⟨e.tag, set⟩ : Nline c) ≠ m.nlineQ
  | .cmoInvalAll | .cmoFlushInvalAll => e.valid = false
  | .cmoFlushNline =>
    c.wbEn = true → e.valid = true → (⟨e.tag, set⟩ : Nline c) = m.nlineQ → e.dirty = false
  | .cmoFlushAll => c.wbEn = true → e.valid = true → e.dirty = false
  | _ => True

theorem leaves_of_not_valid (h : e.valid = false) : m.Leaves set e := by
  unfold Leaves
  split
  · simp [h]
  · simp [h]
  · exact h
  · exact h
  · simp [h]
  · simp [h]
  · trivial

theorem leaves_of_flushesAll (hop : m.FlushesAll) (h : e.Swept m.flushReqInvalQ) :
    m.Leaves set e := by
  unfold Leaves
  rcases hop with ⟨hop, -, -⟩ | ⟨hop, hinval⟩
  · rw [hop]
    exact fun _ hv => (h hv).2
  · rw [hop]
    show e.valid = false
    by_contra hv
    have hswept := (h (by simpa using hv)).1
    rw [hinval] at hswept
    contradiction

theorem leaves_of_flushesNline (hop : m.FlushesNline)
    (h : (⟨e.tag, set⟩ : Nline c) = m.nlineQ → e.Swept m.flushReqInvalQ) : m.Leaves set e := by
  unfold Leaves
  rcases hop with ⟨hop, -, -⟩ | ⟨hop, hinval⟩
  · rw [hop]
    exact fun _ hv heq => (h heq hv).2
  · rw [hop]
    intro hv heq
    have hswept := (h heq hv).1
    rw [hinval] at hswept
    contradiction

end Cmo

namespace Cache

variable {s : Cache c} {i : CacheIn c} {set : Fin c.sets} {w : Fin c.ways}

/-- Every valid and every dirty line is in its interval. -/
structure Tracked (s : Cache c) : Prop where
  init : s.cmo.fsmQ ≠ .idle → s.mem.initQ = true
  refill : s.cmo.fsmQ.walks = true → s.miss.refillBusy = false
  sweep : s.Sweep
  validLe : s.cmoSets.validEnQ = true → s.cmoSets.validMinQ ≤ s.cmoSets.validMaxQ
  dirtyLe : s.cmoSets.dirtyEnQ = true → s.cmoSets.dirtyMinQ ≤ s.cmoSets.dirtyMaxQ
  ram : ∀ set w, s.mem.initQ = true ∨ set.val < s.mem.initSetQ.val →
    Tracks s.cmoSets set (s.mem.dirRam set w)
  updt : s.st2.dirUpdtQ.updt = true → s.st2.dirUpdtQ.valid = true →
    Covers s.cmoSets.validEnQ s.cmoSets.validMinQ s.cmoSets.validMaxQ s.st2.dirUpdtSetQ
  correct : c.eccEn = true → s.err.fsmQ = .correct → s.err.msk s.err.dirCorQ = true →
    Tracks s.cmoSets s.err.setQ s.err.dirRdataQ

/-- No refill is given the pipeline in the cycle in which a walk starts. -/
def Apart (s : Cache c) (i : CacheIn c) : Prop :=
  s.cmo.fsmQ = .waitMshrRtabEmpty → (s.step i).cmo.fsmQ.walks = true →
    (s.pe i).refillReqReady = false

/-! ## The start of a walk -/

/-- The cycle in which a walk starts leaves the directory and the tracked sets as they are. -/
theorem start_keep (h : s.Owned) (hinit : s.mem.initQ = true)
    (hf : s.cmo.fsmQ = .waitMshrRtabEmpty)
    (he : (s.mshrEmpty && s.rtab.empty && s.ctrlEmpty) = true) :
    (s.step i).mem.dirRam = s.mem.dirRam ∧ (s.step i).cmoSets = s.cmoSets := by
  simp only [Bool.and_eq_true] at he
  obtain ⟨⟨hmshr, hrtab⟩, hctrl⟩ := he
  have hidle : s.miss.refillBusy = false := by
    simp only [mshrEmpty, MissHandler.empty, Bool.and_eq_true, Bool.not_eq_true'] at hmshr
    exact hmshr.2
  have hupdt : s.st2.dirUpdtQ.updt = false := by
    simp only [ctrlEmpty, Bool.and_eq_true, Bool.not_eq_true', Bool.or_eq_false_iff] at hctrl
    exact hctrl.2.1.2
  have herr : s.err.busy = false := by
    by_contra hb
    rcases h.err_cmo (by simpa using hb) with hc | hc
    · rw [hf] at hc
      contradiction
    · rw [hrtab] at hc
      contradiction
  have hnw : s.cmo.fsmQ.walks = false := by rw [hf]; rfl
  obtain ⟨hdir, hinval⟩ := MissHandler.comb_idle (i := s.missIn i) hidle
  have hcmo := (Cmo.comb_quiet (i := s.cmoIn i) hnw).2.2
  constructor
  · funext set w
    rcases MemCtrl.dirRam_step s.mem (s.memIn i) set w with heq | ⟨hn, -⟩ | ⟨hn, -⟩ | ⟨hn, -⟩ |
      ⟨hn, -⟩ | ⟨hn, -⟩ | ⟨hn, -⟩
    · exact heq
    · rw [hinit] at hn
      contradiction
    · rw [show (s.memIn i).dirInvalWrite = false from hinval] at hn
      contradiction
    · rw [show (s.memIn i).dirRefill = false from hdir] at hn
      contradiction
    · rw [show (s.memIn i).dirCmoUpdt = false from hcmo] at hn
      contradiction
    · rw [show (s.memIn i).dirUpdt = false from hupdt] at hn
      contradiction
    · rw [show (s.memIn i).dirErrWrite = false from (errComb_of_not_busy herr).2] at hn
      contradiction
  · have hreset : (s.cmoOut i).flushAll = false ∧ (s.cmoOut i).invalAll = false := by
      constructor
      · by_contra hx
        rw [Bool.not_eq_false] at hx
        rcases Cmo.comb_resets (.inl hx) with ⟨hx, -⟩ | ⟨hx, -⟩ <;> rw [hf] at hx <;> contradiction
      · by_contra hx
        rw [Bool.not_eq_false] at hx
        rcases Cmo.comb_resets (.inr hx) with ⟨hx, -⟩ | ⟨hx, -⟩ <;> rw [hf] at hx <;> contradiction
    rw [cmoSets_step hupdt hdir, hreset.1, hreset.2]
    simp

/-- A walk starts at the first tracked set. -/
theorem Tracked.sweep_wait (ht : s.Tracked) (h : s.Owned) (hf : s.cmo.fsmQ = .waitMshrRtabEmpty) :
    (s.step i).Sweep := by
  have hinit := ht.init (by rw [hf]; decide)
  have hway : s.cmo.wayQ = Cmo.wayFirst := by
    have hs := ht.sweep
    unfold Sweep at hs
    rw [hf] at hs
    exact hs
  have hkeep {o : CmoOut c} (ho : s.cmoOut i = o) (h1 : o.wayReset = false)
      (h2 : o.wayIncr = false) : (s.step i).cmo.wayQ = Cmo.wayFirst := by
    have hstep : (s.step i).cmo.wayQ = s.cmo.wayD (s.cmoOut i) := rfl
    rw [hstep, ho, Cmo.wayD_keep h1 h2 (hway.trans Cmo.wayFirst_eq), hway]
  have hfsm : (s.step i).cmo.fsmQ = (s.cmoOut i).fsmD := rfl
  have hop : (s.step i).cmo.opQ = (s.cmoOut i).opD := rfl
  have hinval : (s.step i).cmo.flushReqInvalQ = (s.cmoOut i).flushReqInvalD := rfl
  have hset : (s.step i).cmo.setQ = s.cmo.setD (s.cmoIn i) (s.cmoOut i) := rfl
  have hcomb : s.cmoOut i = s.cmo.combWaitMshr (s.cmoIn i) := by
    unfold cmoOut Cmo.comb
    rw [hf]
  unfold Cmo.combWaitMshr at hcomb
  have hram (set : Fin c.sets) (w : Fin c.ways) : Tracks s.cmoSets set (s.mem.dirRam set w) :=
    ht.ram set w (.inl hinit)
  unfold Sweep
  by_cases he : ((s.cmoIn i).mshrEmpty && (s.cmoIn i).rtabEmpty && (s.cmoIn i).ctrlEmpty) = true
  · rw [if_pos he] at hcomb
    obtain ⟨hram', hsets⟩ := start_keep (i := i) h hinit hf he
    rcases Cmo.combStart_cases s.cmo (s.cmoIn i) s.cmo.default with ⟨-, ho⟩ | ho | ⟨hq, ho⟩ |
      ⟨hq, hen, ho⟩ | ⟨hq, hen, ho⟩ | ⟨hq, hen, ho⟩ | ⟨hq, ho⟩ | ⟨hq, hen, ho⟩ <;>
      rw [ho] at hcomb
    · rw [hfsm, hcomb]
      trivial
    · have hf' : (s.step i).cmo.fsmQ = .waitMshrRtabEmpty := by
        rw [hfsm, hcomb]
        exact hf
      rw [hf']
      exact hkeep hcomb rfl rfl
    · have hop' : (s.step i).cmo.opQ = .cmoInvalNline := by
        rw [hop, hcomb]
        exact hq
      rw [hfsm, hcomb]
      exact .inl hop'
    · -- invalidate all the lines
      have hset' : (s.step i).cmo.setQ = s.cmoSets.validMinQ := by
        rw [hset, hcomb]
        rfl
      have hop' : (s.step i).cmo.opQ = .cmoInvalAll := by
        rw [hop, hcomb]
        exact hq
      rw [hfsm, hcomb]
      refine .inl ⟨.inl hop', ?_, ?_⟩
      · rw [hset', hsets]
        exact ht.validLe hen
      · intro set hlt w
        rw [hset'] at hlt
        rw [hram']
        by_contra hv
        exact absurd ((hram set w).valid (by simpa using hv)).2.1 (not_le.2 hlt)
    · rw [show (s.cmoIn i).dirtySetEn = (c.wbEn && s.cmoSets.dirtyEnQ) from rfl,
        Bool.and_eq_true] at hen
      have hop' : (s.step i).cmo.opQ = .cmoFlushNline := by
        rw [hop, hcomb]
        exact hq
      have hinval' : (s.step i).cmo.flushReqInvalQ = false := by
        rw [hinval, hcomb]
      rw [hfsm, hcomb]
      exact .inl ⟨hop', hinval', hen.1⟩
    · -- flush all the lines
      rw [show (s.cmoIn i).dirtySetEn = (c.wbEn && s.cmoSets.dirtyEnQ) from rfl,
        Bool.and_eq_true] at hen
      have hop' : (s.step i).cmo.opQ = .cmoFlushAll := by
        rw [hop, hcomb]
        exact hq
      have hall : (s.step i).cmo.FlushesAll := by
        refine .inl ⟨hop', ?_, hen.1⟩
        rw [hinval, hcomb]
      have hset' : (s.step i).cmo.setQ = s.cmoSets.dirtyMinQ := by
        rw [hset, hcomb]
        exact if_pos hen.1
      rw [hfsm, hcomb]
      refine ⟨hall, hkeep hcomb rfl rfl, ?_, ?_⟩
      · rw [hset', sweepMax, if_pos hop', hsets]
        exact ht.dirtyLe hen.2
      · intro set hlt w
        rw [hset', ← hsets] at hlt
        have htr : Tracks (s.step i).cmoSets set ((s.step i).mem.dirRam set w) := by
          rw [hsets, hram']
          exact hram set w
        exact swept_of_tracks hall htr (.inr (by rw [if_pos hop']; exact hlt))
    · have hop' : (s.step i).cmo.opQ = .cmoFlushInvalNline := by
        rw [hop, hcomb]
        exact hq
      have hinval' : (s.step i).cmo.flushReqInvalQ = true := by
        rw [hinval, hcomb]
      rw [hfsm, hcomb]
      exact .inr ⟨hop', hinval'⟩
    · -- flush and invalidate all the lines
      have hop' : (s.step i).cmo.opQ = .cmoFlushInvalAll := by
        rw [hop, hcomb]
        exact hq
      have hne : (s.step i).cmo.opQ ≠ .cmoFlushAll := by
        rw [hop']
        decide
      have hall : (s.step i).cmo.FlushesAll := by
        refine .inr ⟨hop', ?_⟩
        rw [hinval, hcomb]
      have hset' : (s.step i).cmo.setQ = s.cmoSets.validMinQ := by
        rw [hset, hcomb]
        rfl
      rw [hfsm, hcomb]
      refine ⟨hall, hkeep hcomb rfl rfl, ?_, ?_⟩
      · rw [hset', sweepMax, if_neg hne, hsets]
        exact ht.validLe hen
      · intro set hlt w
        rw [hset', ← hsets] at hlt
        have htr : Tracks (s.step i).cmoSets set ((s.step i).mem.dirRam set w) := by
          rw [hsets, hram']
          exact hram set w
        exact swept_of_tracks hall htr (.inr (by rw [if_neg hne]; exact hlt))
  · rw [if_neg he] at hcomb
    have hf' : (s.step i).cmo.fsmQ = .waitMshrRtabEmpty := by
      rw [hfsm, hcomb]
      exact hf
    rw [hf']
    exact hkeep hcomb rfl rfl

/-- A cycle keeps what a walk has done. -/
theorem Tracked.sweep_step (ht : s.Tracked) (h : s.Owned) : (s.step i).Sweep := by
  have hs := ht.sweep
  unfold Sweep at hs
  have hram (hinit : s.mem.initQ = true) (set : Fin c.sets) (w : Fin c.ways) :
      Tracks s.cmoSets set (s.mem.dirRam set w) := ht.ram set w (.inl hinit)
  have hquiet (hw : s.cmo.fsmQ.walks = true) (hne : s.cmo.fsmQ ≠ .idle) :
      s.miss.refillBusy = false ∧ MemCtrl.OnlyCmo s.mem (s.memIn i) :=
    ⟨ht.refill hw, h.quiet_of_walk hw (ht.init hne) (ht.refill hw)⟩
  cases hf : s.cmo.fsmQ with
  | idle => exact sweep_idle hf
  | fenceWaitWbufRtabEmpty => exact sweep_fenceWait hf
  | waitMshrRtabEmpty => exact ht.sweep_wait h hf
  | invalCheckNline =>
    rw [hf] at hs
    obtain ⟨-, hq⟩ := hquiet (by rw [hf]; rfl) (by rw [hf]; nofun)
    exact sweep_invalCheckNline hf hs hq
  | invalSet =>
    rw [hf] at hs
    obtain ⟨hr, hq⟩ := hquiet (by rw [hf]; rfl) (by rw [hf]; nofun)
    rcases hs with hs | ⟨hop, -⟩
    · exact hs.step h hf hr hq
    · exact sweep_invalNline hf hop
  | flushAllFirst =>
    rw [hf] at hs
    obtain ⟨hr, hq⟩ := hquiet (by rw [hf]; rfl) (by rw [hf]; nofun)
    exact SweepFirst.step hs h hf hr hq
  | flushAllNext =>
    rw [hf] at hs
    obtain ⟨hr, hq⟩ := hquiet (by rw [hf]; rfl) (by rw [hf]; nofun)
    exact SweepNext.step hs h hf hr hq (hram (ht.init (by rw [hf]; nofun)))
  | flushAllLast =>
    rw [hf] at hs
    obtain ⟨-, hq⟩ := hquiet (by rw [hf]; rfl) (by rw [hf]; nofun)
    exact SweepLast.step hs hf hq
  | flushNlineFirst =>
    rw [hf] at hs
    obtain ⟨-, hq⟩ := hquiet (by rw [hf]; rfl) (by rw [hf]; nofun)
    exact sweep_flushNlineFirst hf hs hq
  | flushNlineNext =>
    rw [hf] at hs
    obtain ⟨-, hq⟩ := hquiet (by rw [hf]; rfl) (by rw [hf]; nofun)
    exact SweepLine.step hs hf hq

/-! ## The step -/

theorem Tracked.init_step (ht : s.Tracked) (h : s.Owned) (hne : (s.step i).cmo.fsmQ ≠ .idle) :
    (s.step i).mem.initQ = true := by
  refine initQ_step ?_
  by_cases hf : s.cmo.fsmQ = .idle
  · have hd : s.dec i = .cmo := by
      by_contra hd
      exact hne (h.cmo_idle_step hf hd)
    have hv : s.st1.reqValidQ = true := by
      refine valid_of_dec (i := i) ?_
      rw [hd]
      nofun
    exact (normal_iff.1 (h.st1_normal hv)).1
  · exact ht.init hf

theorem Tracked.refill_step (ht : s.Tracked) (ha : s.Apart i)
    (hw : (s.step i).cmo.fsmQ.walks = true) : (s.step i).miss.refillBusy = false := by
  rcases Cmo.walks_step hw with hw' | ⟨hf, hmshr, -⟩
  · exact MissHandler.refillBusy_step (ht.refill hw') (refillReqReady_of_walks hw')
  · have hempty : s.mshrEmpty = true := hmshr
    have hidle : s.miss.refillBusy = false := by
      simp only [mshrEmpty, MissHandler.empty, Bool.and_eq_true, Bool.not_eq_true'] at hempty
      exact hempty.2
    exact MissHandler.refillBusy_step hidle (ha hf hw)

/-! ### The directory -/

/-- The handler makes no entry valid, and changes the tag of none that it leaves valid. -/
theorem Sweep.keeps_of_updt (hs : s.Sweep) (hu : (s.cmoOut i).dirUpdt = true)
    (hway : (s.cmoOut i).dirUpdtWay w = true) (hv : (s.cmoOut i).dirUpdtEntry.valid = true) :
    (s.mem.dirRam (s.cmoOut i).dirUpdtSet w).valid = true ∧
      (s.mem.dirRam (s.cmoOut i).dirUpdtSet w).tag = (s.cmoOut i).dirUpdtEntry.tag := by
  have hupdates (hup : s.Updates i) (hc : s.Checked) :
      (s.mem.dirRam (s.cmoOut i).dirUpdtSet w).valid = true ∧
        (s.mem.dirRam (s.cmoOut i).dirUpdtSet w).tag = (s.cmoOut i).dirUpdtEntry.tag := by
    rw [hup.way] at hway
    rw [hup.updt, (hc.flags hway).1, Bool.and_eq_true] at hu
    rw [hup.set, hup.entry]
    exact ⟨hu.1, (hc.flags (i := i) hway).2.2.2.symm⟩
  unfold Sweep at hs
  cases hf : s.cmo.fsmQ with
  | flushAllNext =>
    rw [hf] at hs
    by_cases hvalid : s.cmo.flushReqValidQ = true
    · exact hupdates (updates_flushAllNext hf hvalid) (SweepNext.checked hs hvalid)
    · exfalso
      rw [cmoOut, Cmo.comb, hf] at hu
      simp only [Cmo.combFlushAllNext, if_neg hvalid, Cmo.checkEntry, Cmo.default] at hu
      split_ifs at hu
  | flushAllLast =>
    rw [hf] at hs
    by_cases hvalid : s.cmo.flushReqValidQ = true
    · exact hupdates (updates_flushAllLast hf hvalid) (SweepLast.checked hs hvalid)
    · exfalso
      rw [cmoOut, Cmo.comb, hf] at hu
      simp only [Cmo.combFlushAllLast, if_neg hvalid, Cmo.done, Cmo.default] at hu
      split_ifs at hu
  | flushNlineNext =>
    rw [hf] at hs
    have hcomb : s.cmoOut i = s.cmo.combFlushNlineNext (s.cmoIn i) := by
      unfold cmoOut Cmo.comb
      rw [hf]
    rw [Cmo.combFlushNlineNext] at hcomb
    by_cases hvalid : s.cmo.flushReqValidQ = true
    · have hout : (s.cmoOut i).dirUpdtSet = s.cmo.nlineQ.set ∧
          (s.cmoOut i).dirUpdtWay = (s.cmoIn i).dirCheckNlineHitWay ∧
          (s.cmoOut i).dirUpdtEntry.tag = s.cmo.nlineQ.tag := by
        rw [hcomb, if_pos hvalid]
        split_ifs <;> exact ⟨rfl, rfl, rfl⟩
      have hhit : s.mem.hitWay s.cmo.nlineQ.tag w = true := by
        rw [hout.2.1] at hway
        exact hway
      rw [MemCtrl.hitWay, Bool.and_eq_true, SweepLine.looked hs hvalid w, decide_eq_true_eq] at hhit
      rw [hout.1, hout.2.2]
      exact hhit
    · exfalso
      rw [hcomb, if_neg hvalid] at hu
      simp only [Cmo.done, Cmo.default] at hu
      split_ifs at hu
  | invalSet =>
    exfalso
    have hentry : (s.cmoOut i).dirUpdtEntry = .zero := by
      rw [cmoOut, Cmo.comb, hf]
      simp only [Cmo.combInvalSet, Cmo.done, Cmo.default]
      cases s.cmo.opQ <;> dsimp only <;> (try split_ifs) <;> rfl
    rw [hentry] at hv
    contradiction
  | flushAllFirst =>
    exfalso
    rw [cmoOut, Cmo.comb, hf] at hu
    simp only [Cmo.combFlushAllFirst, Cmo.checkEntry, Cmo.done, Cmo.default] at hu
    split_ifs at hu
  | flushNlineFirst =>
    exfalso
    rw [cmoOut, Cmo.comb, hf] at hu
    simp only [Cmo.combFlushNlineFirst, Cmo.done, Cmo.default] at hu
    split_ifs at hu
  | invalCheckNline =>
    exfalso
    rw [cmoOut, Cmo.comb, hf] at hu
    contradiction
  | idle | fenceWaitWbufRtabEmpty | waitMshrRtabEmpty =>
    exfalso
    rw [cmoOut, (Cmo.comb_quiet (by rw [hf]; rfl)).2.2] at hu
    contradiction

/-- The intervals are reset at the end of a walk. -/
theorem not_reset_of_not_walks (hw : s.cmo.fsmQ.walks = false) :
    (s.cmoOut i).flushAll = false ∧ (s.cmoOut i).invalAll = false := by
  have hnot (h : (s.cmoOut i).flushAll = true ∨ (s.cmoOut i).invalAll = true) : False := by
    rcases Cmo.comb_resets h with ⟨hf, -⟩ | ⟨hf, -⟩ <;> rw [hf] at hw <;> contradiction
  exact ⟨by simpa using fun h => hnot (.inl h), by simpa using fun h => hnot (.inr h)⟩

theorem tracks_step {e : DirEntry} (h : Tracks s.cmoSets set e)
    (hr : (s.cmoOut i).flushAll = false ∧ (s.cmoOut i).invalAll = false) :
    Tracks (s.step i).cmoSets set e where
  valid hv := covers_valid_step (h.valid hv) hr.2
  dirty hv hd := covers_dirty_step (h.dirty hv hd) hr.1

/-- After the last set of a walk that invalidates, no line is left. -/
theorem Tracked.not_valid_of_last (ht : s.Tracked) (h : s.Owned) (hf : s.cmo.fsmQ = .invalSet)
    (hs : s.SweepInval) (hl : s.cmo.setLast (s.cmoIn i) = true) :
    ((s.step i).mem.dirRam set w).valid = false := by
  have hinit := ht.init (by rw [hf]; nofun)
  have hw : s.cmo.fsmQ.walks = true := by rw [hf]; rfl
  have hq := h.quiet_of_walk (i := i) hw hinit (ht.refill hw)
  have hne : s.cmo.opQ ≠ .cmoFlushAll := by
    rcases hs.op with hop | hop <;> simp [hop]
  rw [Cmo.setLast, if_neg hne, decide_eq_true_eq] at hl
  have hmax : s.cmo.setQ = s.cmoSets.validMaxQ := hl
  rw [invalSet_step hf hs.op hq]
  by_cases heq : set = s.cmo.setQ
  · rw [if_pos heq]
    rfl
  · rw [if_neg heq]
    rcases lt_or_gt_of_ne heq with hlt | hgt
    · exact hs.swept set hlt w
    · by_contra hv
      obtain ⟨-, -, hle⟩ := (ht.ram set w (.inl hinit)).valid (by simpa using hv)
      rw [← hmax] at hle
      exact absurd hle (not_le.2 hgt)

/-- At the end of a walk the lines that are left are those that the reset intervals allow. -/
theorem Tracked.ram_reset (ht : s.Tracked) (h : s.Owned)
    (hr : (s.cmoOut i).flushAll = true ∨ (s.cmoOut i).invalAll = true) :
    Tracks (s.step i).cmoSets set ((s.step i).mem.dirRam set w) := by
  have hs := ht.sweep
  unfold Sweep at hs
  rcases Cmo.comb_resets hr with ⟨hf, he⟩ | ⟨hf, hop, hl⟩
  · rw [hf] at hs
    have hinit := ht.init (by rw [hf]; nofun)
    have hw : s.cmo.fsmQ.walks = true := by rw [hf]; rfl
    have hq := h.quiet_of_walk (i := i) hw hinit (ht.refill hw)
    have hswept := SweepLast.swept_step hs hf hq set w
    have hinval : (s.cmoOut i).invalAll = s.cmo.flushReqInvalQ := by
      rw [cmoOut, Cmo.comb, hf]
      simp only [Cmo.combFlushAllLast]
      rw [if_pos he]
      rfl
    have hold (hv : ((s.step i).mem.dirRam set w).valid = true) :
        (s.mem.dirRam set w).valid = true := by
      have hn : (s.cmoOut i).dirCheckNline = false ∧ (s.cmoOut i).dirCheckEntry = false := by
        rw [cmoOut, Cmo.comb, hf]
        simp only [Cmo.combFlushAllLast, Cmo.updtEntry, Cmo.done, Cmo.default]
        split_ifs <;> exact ⟨rfl, rfl⟩
      have hram : (s.step i).mem.dirRam set w = _ := hq.update hn.1 hn.2 set w
      rw [hram] at hv
      by_cases hc : (s.memIn i).dirCmoUpdt = true ∧ set = (s.memIn i).dirCmoUpdtSet ∧
          (s.memIn i).dirCmoUpdtWay w = true
      · rw [if_pos hc] at hv
        rw [hc.2.1]
        exact (ht.sweep.keeps_of_updt hc.1 hc.2.2 hv).1
      · rw [if_neg hc] at hv
        exact hv
    constructor
    · intro hv
      refine covers_valid_step ((ht.ram set w (.inl hinit)).valid (hold hv)) ?_
      rw [hinval]
      exact (hswept hv).1
    · intro hv hd
      rw [(hswept hv).2] at hd
      contradiction
  · rw [hf] at hs
    have hsweep : s.SweepInval := hs.resolve_right fun hx => by
      rcases hop with hop | hop <;> rcases hx.1 with hop' | hop' <;> rw [hop] at hop' <;>
        contradiction
    exact .of_not_valid (ht.not_valid_of_last h hf hsweep hl)

theorem Tracked.ram_step (ht : s.Tracked) (h : s.Owned)
    (hinit' : (s.step i).mem.initQ = true ∨ set.val < (s.step i).mem.initSetQ.val) :
    Tracks (s.step i).cmoSets set ((s.step i).mem.dirRam set w) := by
  by_cases hreset : (s.cmoOut i).flushAll = true ∨ (s.cmoOut i).invalAll = true
  · exact ht.ram_reset h hreset
  have hr : (s.cmoOut i).flushAll = false ∧ (s.cmoOut i).invalAll = false := by
    simpa [not_or] using hreset
  have hold (hi : s.mem.initQ = true ∨ set.val < s.mem.initSetQ.val)
      (heq : (s.step i).mem.dirRam set w = s.mem.dirRam set w) :
      Tracks (s.step i).cmoSets set ((s.step i).mem.dirRam set w) := by
    rw [heq]
    exact tracks_step (ht.ram set w hi) hr
  have hram : (s.step i).mem.dirRam set w = .zero ∨ _ := MemCtrl.dirRam_cases hinit'
  rcases hram with heq | ⟨hi, heq⟩ | ⟨hn, ⟨hw, hset, -, heq⟩ | ⟨hu, hset, hway, heq⟩ |
    ⟨hu, hset, -, heq⟩ | ⟨he, hset, -, heq⟩⟩
  · rw [heq]
    exact .of_not_valid rfl
  · exact hold hi heq
  · -- a refill has added its set
    have hw' : (s.refill i).writeDir = true := hw
    have hb := MissHandler.refillBusy_of_writeDir hw'
    have hst2 := (h.idle_of_not_normal (by simp [normal, hb])).2
    simp only [st2Busy, Bool.or_eq_false_iff] at hst2
    rw [show (s.step i).mem.dirRam set w = s.miss.refillDirEntry from heq,
      show set = (s.refill i).set from hset]
    exact ⟨covers_valid_refill hw', fun _ => covers_dirty_refill hst2.2 hw'⟩
  · have hupdt : (s.step i).mem.dirRam set w = (s.cmoOut i).dirUpdtEntry := heq
    rw [hupdt, show set = (s.cmoOut i).dirUpdtSet from hset]
    constructor
    · intro hv
      exact covers_valid_step
        ((ht.ram _ w (.inl hn)).valid (ht.sweep.keeps_of_updt hu hway hv).1) hr.2
    · intro _ hd
      have hclean : (s.cmoOut i).dirUpdtEntry.dirty = false :=
        Cmo.dirUpdtEntry_dirty s.cmo (s.cmoIn i)
      rw [hclean] at hd
      contradiction
  · have hu' : s.st2.dirUpdtQ.updt = true := hu
    rw [show (s.step i).mem.dirRam set w = (s.memIn i).dirUpdtEntry from heq,
      show set = s.st2.dirUpdtSetQ from hset]
    exact ⟨fun hv => covers_valid_step (ht.updt hu' hv) hr.2, fun _ => covers_dirty_updt hu'⟩
  · have hwrite : (s.err.comb (s.errIn i)).dirWrite = true := he
    rw [show (s.step i).mem.dirRam set w = (s.memIn i).dirErrWdata from heq,
      show set = s.err.setQ from hset]
    obtain ⟨hecc, ⟨-, hz⟩ | ⟨hfsm, hm, hd⟩⟩ := ErrFsm.dirWrite_cases hwrite
    · rw [show (s.memIn i).dirErrWdata = .zero from hz]
      exact .of_not_valid rfl
    · rw [show (s.memIn i).dirErrWdata = s.err.dirRdataQ from hd]
      exact tracks_step (ht.correct hecc hfsm hm) hr

theorem Tracked.updt_step (ht : s.Tracked) (h : s.Owned) (hl : s.Looked)
    (hu : (s.step i).st2.dirUpdtQ.updt = true) (hv : (s.step i).st2.dirUpdtQ.valid = true) :
    Covers (s.step i).cmoSets.validEnQ (s.step i).cmoSets.validMinQ (s.step i).cmoSets.validMaxQ
      (s.step i).st2.dirUpdtSetQ := by
  have hpe := (h.pe_agrees (i := i)).dirUpdt
  have hstep : (s.step i).st2.dirUpdtQ = if (s.pe i).st2DirUpdt.updt then (s.pe i).st2DirUpdt
    else { s.st2.dirUpdtQ with updt := false } := rfl
  have hupdt : (s.pe i).st2DirUpdt.updt = true := by
    by_contra hn
    rw [hstep, if_neg hn] at hu
    contradiction
  have hset : (s.step i).st2.dirUpdtSetQ = (s.st1Req i).req.addrSet := by
    have hstep' : (s.step i).st2.dirUpdtSetQ =
      if (s.pe i).st2DirUpdt.updt then (s.st1Req i).req.addrSet else s.st2.dirUpdtSetQ := rfl
    rw [hstep', if_pos hupdt]
  rw [hstep, if_pos hupdt, hpe] at hv
  rw [hpe] at hupdt
  obtain ⟨hc, hline⟩ := Decision.cacheable_of_updt dec_guard hupdt hv
  have hvalid : s.st1.reqValidQ = true := hc.valid
  have hn := h.st1_normal hvalid
  have hop : s.st1.reqQ.req.op.isCmoWalk = false := by
    rw [← st1Req_op (i := i)]
    exact hc.not_cmo
  have hdir (w : Fin c.ways) := hl.dir hvalid (isError_eq hc.toProceeds) hop w
  have hreset : (s.cmoOut i).flushAll = false ∧ (s.cmoOut i).invalAll = false := by
    refine not_reset_of_not_walks ?_
    by_contra hw
    rw [(h.walk (by simpa using hw)).1] at hvalid
    contradiction
  have hex : ∃ w, (s.mem.dirRam s.st1.reqQ.req.addrSet w).valid = true := by
    rcases hline with hhit | hvictim
    · have hhit' : any (s.st1HitWay i) = true := hhit
      rw [any_eq_true] at hhit'
      obtain ⟨w, hw⟩ := hhit'
      rw [st1HitWay, MemCtrl.hitWay, Bool.and_eq_true, hdir] at hw
      exact ⟨w, hw.1⟩
    · have hvictim' : s.mem.flag (s.st1VictimWay i) DirEntry.valid = true := hvictim
      rw [MemCtrl.flag, any_eq_true] at hvictim'
      obtain ⟨w, hw⟩ := hvictim'
      rw [Bool.and_eq_true, hdir] at hw
      exact ⟨w, hw.2⟩
  obtain ⟨w, hw⟩ := hex
  rw [hset, st1Req_set]
  exact covers_valid_step ((ht.ram _ w (.inl (normal_iff.1 hn).1)).valid hw) hreset.2

theorem Tracked.correct_step (ht : s.Tracked) (h : s.Owned) (hf : s.Fetching)
    (hecc : c.eccEn = true) (hl : (s.step i).err.fsmQ = .correct)
    (hm : (s.step i).err.msk (s.step i).err.dirCorQ = true) :
    Tracks (s.step i).cmoSets (s.step i).err.setQ (s.step i).err.dirRdataQ := by
  have hstep : (s.step i).err = s.err.step (s.errIn i) := rfl
  rw [hstep] at hl
  obtain ⟨hfsm, hway, hset, hcor, hdata⟩ := ErrFsm.correct_step hecc hl
  rw [← hstep] at hway hset hcor hdata
  have hb : s.err.busy = true := by simp [ErrFsm.busy, hecc, hfsm]
  have hmsk : s.err.msk s.err.dirCorQ = true := by
    rw [← hm]
    simp [ErrFsm.msk, hway, hcor]
  obtain ⟨hlatch, hentry⟩ := hf.latch hecc hfsm hmsk
  have hmux : (s.step i).err.dirRdataQ = mux s.mem.dirErrWayQ s.mem.dirRentry .zero := by
    rw [hdata hmsk]
    show s.mem.dirErrRdata = _
    simp [MemCtrl.dirErrRdata, hecc]
  have hreset : (s.cmoOut i).flushAll = false ∧ (s.cmoOut i).invalAll = false := by
    refine not_reset_of_not_walks ?_
    by_contra hw
    rw [(h.walk (by simpa using hw)).2.2] at hb
    contradiction
  rw [hmux, hset, hlatch]
  -- an entry is corrected only if its way is the one of the handler
  obtain ⟨w, hw⟩ := any_eq_true.1 hmsk
  rw [Bool.and_eq_true] at hw
  rw [hf.errWay.mux hw.2, hentry w hw.2]
  exact tracks_step (ht.ram _ w (.inl (h.err_init hb))) hreset

/-- A regular cycle in which no refill starts with a walk keeps the lines tracked. -/
theorem Tracked.step (ht : s.Tracked) (hinv : s.Inv) (ha : s.Apart i) : (s.step i).Tracked where
  init := ht.init_step hinv.owned
  refill := ht.refill_step ha
  sweep := ht.sweep_step hinv.owned
  validLe := interval_grow ht.validLe
  dirtyLe := interval_grow ht.dirtyLe
  ram _ _ := ht.ram_step hinv.owned
  updt := ht.updt_step hinv.owned hinv.looked
  correct := ht.correct_step hinv.owned hinv.fetching

theorem tracked_reset (s : Cache c) : s.reset.Tracked where
  init h := absurd rfl h
  refill := nofun
  sweep := trivial
  validLe := nofun
  dirtyLe := nofun
  ram set w hinit := by
    rcases hinit with hinit | hinit
    · contradiction
    · exact absurd hinit (by simp [reset, MemCtrl.reset])
  updt := nofun
  correct := nofun

/-! ## The end of an operation -/

theorem Tracked.leaves_wait (ht : s.Tracked) (h : s.Owned) (hf : s.cmo.fsmQ = .waitMshrRtabEmpty)
    (hidle : (s.step i).cmo.fsmQ = .idle) : s.cmo.Leaves set ((s.step i).mem.dirRam set w) := by
  have hinit := ht.init (by rw [hf]; nofun)
  have hcomb : s.cmoOut i = s.cmo.combWaitMshr (s.cmoIn i) := by
    unfold cmoOut Cmo.comb
    rw [hf]
  have hstep : (s.step i).cmo.fsmQ = (s.cmoOut i).fsmD := rfl
  rw [hstep, hcomb, Cmo.combWaitMshr] at hidle
  by_cases he : ((s.cmoIn i).mshrEmpty && (s.cmoIn i).rtabEmpty && (s.cmoIn i).ctrlEmpty) = true
  · rw [if_pos he] at hidle
    obtain ⟨hram, -⟩ := start_keep (i := i) h hinit hf he
    rw [hram]
    have htr := ht.ram set w (.inl hinit)
    have hnothing : s.cmo.Nothing (s.cmoIn i) := by
      rcases Cmo.combStart_cases s.cmo (s.cmoIn i) s.cmo.default with ⟨hn, -⟩ | ho | ⟨-, ho⟩ |
        ⟨-, -, ho⟩ | ⟨-, -, ho⟩ | ⟨-, -, ho⟩ | ⟨-, ho⟩ | ⟨-, -, ho⟩
      · exact hn
      · rw [ho] at hidle
        exact absurd (hf.symm.trans hidle) (by decide)
      all_goals
        rw [ho] at hidle
        contradiction
    rcases hnothing with ⟨-, hen⟩ | ⟨hop, hen⟩
    · refine Cmo.leaves_of_not_valid ?_
      by_contra hv
      have hcov := (htr.valid (by simpa using hv)).1
      rw [show s.cmoSets.validEnQ = false from hen] at hcov
      contradiction
    · have hclean (hwb : c.wbEn = true) (hv : (s.mem.dirRam set w).valid = true) :
          (s.mem.dirRam set w).dirty = false := by
        by_contra hd
        have hen' : (c.wbEn && s.cmoSets.dirtyEnQ) = false := hen
        rw [hwb, (htr.dirty hv (by simpa using hd)).1] at hen'
        contradiction
      rcases hop with hop | hop
      · rw [Cmo.Leaves, hop]
        exact fun hwb hv _ => hclean hwb hv
      · rw [Cmo.Leaves, hop]
        exact hclean
  · rw [if_neg he] at hidle
    exact absurd (hf.symm.trans hidle) (by decide)

/-- The line that is invalidated is not left. -/
theorem leaves_invalNline (hf : s.cmo.fsmQ = .invalSet) (hop : s.cmo.InvalsNline)
    (hl : s.LooksUp) (hq : MemCtrl.OnlyCmo s.mem (s.memIn i)) :
    s.cmo.Leaves set ((s.step i).mem.dirRam set w) := by
  have hcomb : s.cmoOut i = s.cmo.combInvalSet (s.cmoIn i) := by
    unfold cmoOut Cmo.comb
    rw [hf]
  have hout : (s.cmoOut i).dirCheckNline = false ∧ (s.cmoOut i).dirCheckEntry = false ∧
      (s.cmoOut i).dirUpdt = Cmo.checkNlineHit (s.cmoIn i) ∧
      (s.cmoOut i).dirUpdtSet = s.cmo.nlineQ.set ∧
      (s.cmoOut i).dirUpdtWay = (s.cmoIn i).dirCheckNlineHitWay ∧
      (s.cmoOut i).dirUpdtEntry = .zero := by
    rw [hcomb, Cmo.combInvalSet]
    rcases hop with hop | hop <;> rw [hop] <;> exact ⟨rfl, rfl, rfl, rfl, rfl, rfl⟩
  obtain ⟨hn, he, hu, hset, hway, hentry⟩ := hout
  have hram : (s.step i).mem.dirRam set w = _ := hq.update hn he set w
  by_cases hc : (s.memIn i).dirCmoUpdt = true ∧ set = (s.memIn i).dirCmoUpdtSet ∧
      (s.memIn i).dirCmoUpdtWay w = true
  · rw [hram, if_pos hc]
    refine Cmo.leaves_of_not_valid ?_
    show (s.cmoOut i).dirUpdtEntry.valid = false
    rw [hentry]
    rfl
  · rw [hram, if_neg hc]
    have hne (hv : (s.mem.dirRam set w).valid = true) :
        (⟨(s.mem.dirRam set w).tag, set⟩ : Nline c) ≠ s.cmo.nlineQ := by
      intro heq
      have hset' : set = s.cmo.nlineQ.set := congrArg Nline.set heq
      have htag : (s.mem.dirRam set w).tag = s.cmo.nlineQ.tag := congrArg Nline.tag heq
      have hhit : s.mem.hitWay s.cmo.nlineQ.tag w = true := by
        rw [MemCtrl.hitWay, hl w, ← hset', hv, htag]
        simp
      refine hc ⟨?_, hset'.trans hset.symm, ?_⟩
      · show (s.cmoOut i).dirUpdt = true
        rw [hu, Cmo.checkNlineHit, any_eq_true]
        exact ⟨w, hhit⟩
      · show (s.cmoOut i).dirUpdtWay w = true
        rw [hway]
        exact hhit
    rcases hop with hop | hop <;> rw [Cmo.Leaves, hop] <;> exact hne

/-- An operation of the handler leaves no line that it is to flush or to invalidate. -/
theorem Tracked.leaves (ht : s.Tracked) (h : s.Owned)
    (hne : s.cmo.fsmQ ≠ .idle ∧ s.cmo.fsmQ ≠ .fenceWaitWbufRtabEmpty)
    (hidle : (s.step i).cmo.fsmQ = .idle) : s.cmo.Leaves set ((s.step i).mem.dirRam set w) := by
  have hs := ht.sweep
  unfold Sweep at hs
  have hstep : (s.step i).cmo.fsmQ = (s.cmoOut i).fsmD := rfl
  have hquiet (hw : s.cmo.fsmQ.walks = true) : MemCtrl.OnlyCmo s.mem (s.memIn i) :=
    h.quiet_of_walk hw (ht.init hne.1) (ht.refill hw)
  cases hf : s.cmo.fsmQ with
  | idle => exact absurd hf hne.1
  | fenceWaitWbufRtabEmpty => exact absurd hf hne.2
  | waitMshrRtabEmpty => exact ht.leaves_wait h hf hidle
  | invalCheckNline =>
    rw [hstep, cmoOut, Cmo.comb, hf] at hidle
    contradiction
  | invalSet =>
    rw [hf] at hs
    rcases hs with hs | ⟨hop, hl⟩
    · refine Cmo.leaves_of_not_valid (ht.not_valid_of_last h hf hs ?_)
      by_contra hl
      rw [hstep, cmoOut, Cmo.comb, hf] at hidle
      have hsame : (s.cmo.combInvalSet (s.cmoIn i)).fsmD = s.cmo.fsmQ := by
        rw [Cmo.combInvalSet]
        rcases hs.op with hop | hop <;> rw [hop] <;> dsimp only <;> rw [if_neg hl] <;> rfl
      rw [← hsame] at hf
      exact absurd (hf.symm.trans hidle) (by decide)
    · exact leaves_invalNline hf hop hl (hquiet (by rw [hf]; rfl))
  | flushAllFirst =>
    exfalso
    rw [hf] at hs
    rw [hstep, cmoOut, Cmo.comb, hf] at hidle
    simp only [Cmo.combFlushAllFirst, Cmo.default, Cmo.checkEntry, hf] at hidle
    split_ifs at hidle with hwb hok hinval
    rcases SweepFirst.op hs with hop | hop
    · exact hwb hop.2.2
    · exact hinval hop.2
  | flushAllNext =>
    exfalso
    rw [hstep, cmoOut, Cmo.comb, hf] at hidle
    simp only [Cmo.combFlushAllNext, Cmo.updtEntry, Cmo.default, Cmo.checkEntry, hf] at hidle
    split_ifs at hidle
  | flushAllLast =>
    rw [hf] at hs
    exact Cmo.leaves_of_flushesAll (SweepLast.op hs)
      (SweepLast.swept_step hs hf (hquiet (by rw [hf]; rfl)) set w)
  | flushNlineFirst =>
    exfalso
    rw [hf] at hs
    rw [hstep, cmoOut, Cmo.comb, hf] at hidle
    simp only [Cmo.combFlushNlineFirst, Cmo.default, hf] at hidle
    split_ifs at hidle with hwb hok hinval
    have hop : s.cmo.FlushesNline := hs
    rcases hop with hop | hop
    · exact hwb hop.2.2
    · exact hinval hop.2
  | flushNlineNext =>
    rw [hf] at hs
    refine Cmo.leaves_of_flushesNline (SweepLine.op hs) fun heq => ?_
    have hset : set = s.cmo.nlineQ.set := congrArg Nline.set heq
    have htag : ((s.step i).mem.dirRam set w).tag = s.cmo.nlineQ.tag := congrArg Nline.tag heq
    rw [hset] at htag ⊢
    exact SweepLine.swept_step hs hf (hquiet (by rw [hf]; rfl)) w htag

/-! ## Runs -/

/-- A regular cycle in which no refill starts with a walk. -/
structure Steady (s : Cache c) (i : CacheIn c) : Prop where
  regular : s.Regular i
  apart : s.Apart i

/-- The invariants of the cache and of its walks. -/
structure WalkInv (s : Cache c) : Prop extends Inv s where
  tracked : s.Tracked

theorem WalkInv.step (h : s.WalkInv) (hs : s.Steady i) : (s.step i).WalkInv :=
  ⟨h.toInv.step hs.regular, h.tracked.step h.toInv hs.apart⟩

theorem walkInv_run {is : List (CacheIn c)} (hr : Along Cache.step Steady s.reset is) :
    (run Cache.step s.reset is).WalkInv :=
  hr.invariant (⟨inv_reset s, tracked_reset s⟩ : s.reset.WalkInv) fun _ _ => WalkInv.step

/-- In every state of a steady run every valid line is in the interval of the valid sets, and every
dirty line in that of the dirty sets, as soon as the directory entry is initialised. -/
theorem tracks_run (s : Cache c) (is : List (CacheIn c))
    (hr : Along Cache.step Steady s.reset is) (set : Fin c.sets) (w : Fin c.ways) :
    let t := run Cache.step s.reset is
    t.mem.initQ = true ∨ set.val < t.mem.initSetQ.val →
      Tracks t.cmoSets set (t.mem.dirRam set w) :=
  (walkInv_run hr).tracked.ram set w

/-- At the end of every operation of the handler in a steady run, no line is left that the operation
is to invalidate, and no line is left dirty that it is to flush. -/
theorem leaves_run (s : Cache c) (is : List (CacheIn c)) (i : CacheIn c)
    (hr : Along Cache.step Steady s.reset is) (set : Fin c.sets) (w : Fin c.ways) :
    let t := run Cache.step s.reset is
    t.cmo.fsmQ ≠ .idle ∧ t.cmo.fsmQ ≠ .fenceWaitWbufRtabEmpty → (t.step i).cmo.fsmQ = .idle →
      t.cmo.Leaves set ((t.step i).mem.dirRam set w) :=
  (walkInv_run hr).tracked.leaves (walkInv_run hr).owned

end Cache

/-! ## A dirty line, and an invalidation in the way of the walk -/

instance (f : Flush c) : Decidable f.Sent :=
  decidable_of_iff (f.fsmQ = .idle ∧ f.metaFifo.isEmpty = true ∧ f.resizer.slots.isEmpty = true ∧
      f.resizer.part.isEmpty = true) (by
    simp only [List.isEmpty_iff]
    constructor
    · intro h
      exact ⟨h.1, h.2.1, congrArg₂ Resizer.mk h.2.2.1 h.2.2.2⟩
    · intro h
      exact ⟨h.fsm, h.metas, congrArg Resizer.slots h.resizer, congrArg Resizer.part h.resizer⟩)

namespace Cache

instance (s : Cache c) (i : CacheIn c) : Decidable (s.Answers i) :=
  inferInstanceAs (Decidable (_ → ∀ _, _ → (∀ _, _ → _) → _))

instance (s : Cache c) (i : CacheIn c) : Decidable (s.Regular i) :=
  decidable_of_iff (s.Answers i ∧ s.leaks i = false ∧ s.lateLookup i = false ∧
      s.disabledReplay i = false)
    ⟨fun h => ⟨h.1, h.2.1, h.2.2.1, h.2.2.2⟩,
      fun h => ⟨h.answers, h.not_leak, h.not_late, h.not_disabled⟩⟩

instance (s : Cache c) (i : CacheIn c) : Decidable (s.Apart i) :=
  inferInstanceAs (Decidable (_ → _ → _))

instance (s : Cache c) (i : CacheIn c) : Decidable (s.Steady i) :=
  decidable_of_iff (s.Regular i ∧ s.Apart i)
    ⟨fun h => ⟨h.1, h.2⟩, fun h => ⟨h.regular, h.apart⟩⟩

end Cache

def firstSet : Fin lowLatencyCfg.sets := ⟨0, lowLatencyCfg.sets_pos⟩

def firstWay : Fin lowLatencyCfg.ways := ⟨0, lowLatencyCfg.ways_pos⟩

/-- The memory acknowledges the line in the first entry of the flush controller. -/
def CacheIn.flushed : CacheIn lowLatencyCfg :=
  { CacheIn.idle lowLatencyCfg with flushAck := some ⟨0, by decide⟩ }

/-- A store makes a line dirty, and a flush of all the lines comes to its walk. -/
def dirtyThenFlush : List (CacheIn lowLatencyCfg) :=
  [.idle _, .idle _, .ask storeWb, .idle _, .idle _, .refill, .idle _, .idle _, .idle _, .idle _,
    .ask (.access .cmoFlushAll 0 false), .idle _, .idle _]

/-- The walk over the two ways of the set, which waits for the memory at its end. -/
def flushCycles : List (CacheIn lowLatencyCfg) :=
  [.idle _, .idle _, .idle _, .idle _, .idle _, .flushed]

theorem steady_dirtyThenFlush :
    Along Cache.step Cache.Steady (Cache.blank lowLatencyCfg).reset
      (dirtyThenFlush ++ flushCycles) := by
  decide +kernel

theorem tracks_run_dirtyThenFlush :
    let t := run Cache.step (Cache.blank lowLatencyCfg).reset (dirtyThenFlush ++ flushCycles)
    Tracks t.cmoSets firstSet (t.mem.dirRam firstSet firstWay) :=
  Cache.tracks_run _ _ steady_dirtyThenFlush _ _ (by decide +kernel)

theorem leaves_run_dirtyThenFlush :
    let t := run Cache.step (Cache.blank lowLatencyCfg).reset (dirtyThenFlush ++ flushCycles)
    t.cmo.Leaves firstSet ((t.step (.idle _)).mem.dirRam firstSet firstWay) :=
  Cache.leaves_run _ _ _ steady_dirtyThenFlush _ _ (by decide +kernel) (by decide +kernel)

def secondSet : Fin lowLatencyCfg.sets := ⟨1, by decide⟩

/-- A load of the other set. -/
def loadSecond : Req lowLatencyCfg :=
  { (Req.access .load 1 false : Req lowLatencyCfg) with addrSet := secondSet }

/-- The memory answers the miss of the other set, or the network invalidates its line. -/
def CacheIn.second (isInval : Bool) : CacheIn lowLatencyCfg :=
  { CacheIn.idle lowLatencyCfg with
    missResp :=
      some ⟨false, mshrSetOf _ secondSet, ⟨0, lowLatencyCfg.mshrWays_pos⟩, isInval, ⟨1, secondSet⟩,
        fun _ => 0⟩ }

/-- A line of the other set is loaded, and a store makes a line dirty. The network invalidates the
first line in the cycle in which the flush of all the lines starts its walk. -/
def invalThenFlush : List (CacheIn lowLatencyCfg) :=
  [.idle _, .idle _, .ask loadSecond, .idle _, .idle _, .second false, .idle _, .idle _, .idle _,
    .ask storeWb, .idle _, .idle _, .refill, .idle _, .idle _, .idle _, .idle _,
    .ask (.access .cmoFlushAll 0 false), .second true, .idle _, .idle _, .idle _, .idle _]

/-- The flush is about to end. -/
def flushEnds : Cache lowLatencyCfg :=
  run Cache.step (Cache.blank _).reset invalThenFlush

/-- The invalidation takes the directory port from the first access of the walk, which then misses
the dirty line. -/
theorem flushEnds_not_leaves :
    Along Cache.step Cache.Regular (Cache.blank lowLatencyCfg).reset invalThenFlush ∧
      flushEnds.cmo.fsmQ = .flushAllLast ∧ (flushEnds.step (.idle _)).cmo.fsmQ = .idle ∧
      ¬ flushEnds.cmo.Leaves firstSet
        ((flushEnds.step (.idle _)).mem.dirRam firstSet firstWay) := by
  refine ⟨by decide +kernel, by decide +kernel, by decide +kernel, ?_⟩
  have hop : flushEnds.cmo.opQ = .cmoFlushAll := by decide +kernel
  have hdirty : ((flushEnds.step (.idle _)).mem.dirRam firstSet firstWay).valid = true ∧
      ((flushEnds.step (.idle _)).mem.dirRam firstSet firstWay).dirty = true := by
    decide +kernel
  rw [Cmo.Leaves, hop]
  intro hl
  have hclean := hl rfl hdirty.1
  rw [hdirty.2] at hclean
  contradiction

end Hpdcache
