import Hpdcache.Faults
import Hpdcache.Lrsc

/-!
# Recovery from errors in the RAMs

The walk of the handler is an induction over the ways that are left. Nobody else uses the RAMs
meanwhile: the pipeline is empty when the handler starts, and no request enters it.

* `Cache.Exclusive` — what the controller promises to the handler.
* `Cache.Checks.walked_way` — what the handler does with one way.
* `Cache.Checks.walked` — the walk over the ways that are left.
* `Cache.recovers` — the recovery from any fault, from the request that finds it to the release of
the pipeline.
* `Cache.Inv.exclusive` — the promise is kept in regular runs.
-/

namespace Hpdcache

open Hw

variable {c : Cfg}

/-! ## The pipeline -/

namespace MissHandler

variable {m : MissHandler c} {i : MissIn c}

theorem comb_writeData (hb : m.refillBusy = false) (hr : i.refillReqReady = false) :
    (m.refillComb i).writeData = false := by
  have hf : m.refillFsmQ = .idle := by simpa [refillBusy] using hb
  simp only [refillComb, hf, refillIdle, refillDefault, hr, Bool.false_eq_true, if_false]
  split_ifs <;> rfl

end MissHandler

namespace Cache

open MemCtrl

variable {s : Cache c} {i : CacheIn c} {w : Fin c.ways} {is : List (CacheIn c)}

/-- What the controller promises to the handler when a request in stage 1 shows errors: stage 2 is
empty, the uncacheable handler has no request, the CMO handler does not walk the cache, and does not
start to before the replay table is empty. -/
structure Exclusive (s : Cache c) : Prop where
  scrub : s.st1.reqQ.errScrubbing = false
  st2 : s.st2Busy = false
  uc : s.uc.ready = true
  holds : s.cmo.HoldsFlush
  walks : s.cmo.fsmQ.walks = false
  cmo : s.cmo.fsmQ = .idle ∨ s.rtab.empty = false

/-- The handler has the pipeline: nothing is in it, and the units that use the RAMs are idle. -/
structure Halted (s : Cache c) : Prop where
  busy : s.err.busy = true
  init : s.mem.initQ = true
  st1 : s.st1.reqValidQ = false
  st2 : s.st2Busy = false
  refill : s.miss.refillBusy = false
  flush : s.flushBusy = false
  uc : s.uc.ready = true
  holds : s.cmo.HoldsFlush
  walks : s.cmo.fsmQ.walks = false
  cmo : s.cmo.fsmQ = .idle ∨ s.rtab.empty = false

/-- The handler is at work on a way. -/
def Walks (s : Cache c) (_ : CacheIn c) : Prop := s.err.busy = true ∧ s.err.wait = false

/-- The handler has the RAMs, which are initialised, for itself. -/
def Stalled (s : Cache c) (i : CacheIn c) : Prop :=
  s.mem.initQ = true ∧ (s.memIn i).OnlyErr

theorem walks_step_eq_false (hw : s.cmo.fsmQ.walks = false)
    (h : s.cmo.fsmQ = .idle ∨ s.rtab.empty = false) : (s.step i).cmo.fsmQ.walks = false := by
  by_contra hstep
  rcases Cmo.walks_step (eq_true_of_ne_false hstep) with hw' | ⟨hf, -, hempty, -⟩
  · rw [hw] at hw'
    contradiction
  · have hempty' : s.rtab.empty = true := hempty
    rcases h with hidle | hne
    · rw [hf] at hidle
      contradiction
    · rw [hempty'] at hne
      contradiction

theorem flushBusy_step_of_walks (h : s.cmo.HoldsFlush) (hb : s.flushBusy = false)
    (hst2 : s.st2Busy = false) (hw : s.cmo.fsmQ.walks = false) :
    (s.step i).flushBusy = false := by
  simp only [st2Busy, Bool.or_eq_false_iff] at hst2
  refine Cache.flushBusy_step h hb hst2.1.2 ?_
  by_contra hf
  rw [CmoFsm.walks_of_flushes (eq_true_of_ne_false hf)] at hw
  contradiction

/-- Without a grant nothing enters stage 1. -/
theorem not_valid_step (hn : s.normal = true ∨ s.st1.reqValidQ = false)
    (hno : ¬ ((s.peIn i).GrantCore c ∨ (s.peIn i).GrantRtab c)) :
    (s.step i).st1.reqValidQ = false := by
  rw [← coreReqReady_iff, ← rtabReqReady_iff, ← Bool.or_eq_true] at hno
  show (hpdcacheCtrlPe c (s.peIn i)).st1ReqValid = false
  cases hnorm : (s.peIn i).normal with
  | false =>
    obtain ⟨evt, he⟩ := hpdcacheCtrlPe_not_normal (c := c) hnorm
    rw [he]
    refine hn.resolve_left ?_
    rw [show s.normal = false from hnorm]
    exact Bool.false_ne_true
  | true =>
    rw [hpdcacheCtrlPe_normal hnorm] at hno ⊢
    exact eq_false_of_ne_true hno

/-- While the handler is busy no request enters stage 1. -/
theorem closed_of_errBusy (hb : s.err.busy = true) (hv : s.st1.reqValidQ = false) :
    (s.step i).st1.reqValidQ = false := by
  apply not_valid_step (.inr hv)
  intro hg
  have hno : s.err.busy = false := hg.elim (fun hc => hc.not_err) fun hr => hr.not_err
  rw [hb] at hno
  contradiction

namespace Halted

theorem normal (h : s.Halted) : s.normal = true := normal_iff.2 ⟨h.init, h.refill, h.flush⟩

theorem pe_agrees (h : s.Halted) : PeAgrees (s.peIn i) (s.dec i) (s.pe i) := by
  rw [idle_of_not_valid h.st1]
  exact hpdcacheCtrlPe_agrees_idle h.normal h.st1

/-- The handler keeps the pipeline. -/
theorem step (h : s.Halted) (hw : s.err.wait = false) (hb : (s.step i).err.busy = true) :
    (s.step i).Halted where
  busy := hb
  init := initQ_step h.init
  st1 := closed_of_errBusy h.busy h.st1
  st2 := by
    rw [Cache.st2Busy_step h.pe_agrees, idle_of_not_valid h.st1]
    rfl
  refill := MissHandler.refillBusy_step h.refill
    (refillReqReady_eq_false (.inr (.inr ⟨h.busy, hw⟩)))
  flush := flushBusy_step_of_walks h.holds h.flush h.st2 h.walks
  uc := Cache.uc_ready_step h.pe_agrees h.uc (by rw [idle_of_not_valid h.st1]; rfl)
  holds := Cmo.HoldsFlush.step h.holds
  walks := walks_step_eq_false h.walks h.cmo
  cmo := cmo_held_step h.pe_agrees (by rw [idle_of_not_valid h.st1]; nofun)
    (by rw [idle_of_not_valid h.st1]; rfl) h.cmo

/-- The engine does not access the data. -/
theorem engine_uses (h : s.Halted) :
    (s.pe i).reqCachedataRead = false ∧ (s.pe i).st1ReqCachedataWrite = false := by
  have hn : (s.peIn i).normal = true := h.normal
  have hv : (s.peIn i).st1ReqValid = false := h.st1
  have hb : (s.peIn i).errBusy = true := h.busy
  have hstage : stage1 c (s.peIn i) = st2Pending (s.peIn i) (PeOut.default (s.peIn i)) := by
    unfold stage1 st1Request
    rw [if_neg (by simp [hv])]
  unfold pe
  rw [hpdcacheCtrlPe_normal hn, hstage, st2Pending_default]
  constructor
  · simp [newRequest, hb, st1Start, PeOut.default]
  · rfl

theorem stalled (h : s.Halted) (hw : s.err.wait = false) : s.Stalled i := by
  have hready : (s.pe i).refillReqReady = false :=
    refillReqReady_eq_false (.inr (.inr ⟨h.busy, hw⟩))
  obtain ⟨hdir, hcheck, hwrite⟩ := MissHandler.comb_quiet (i := s.missIn i) h.refill hready
  obtain ⟨hnline, hentry, hupdt⟩ := Cmo.comb_quiet (i := s.cmoIn i) h.walks
  have hst2 := h.st2
  simp only [st2Busy, Bool.or_eq_false_iff] at hst2
  have hflush : (s.memIn i).dataFlushRead = false := by
    show (c.wbEn && (s.flush.dataRead (s.flushIn i)).read) = false
    cases hwb : c.wbEn with
    | false => rfl
    | true =>
      have hf : s.flush.fsmQ = .idle := by simpa [flushBusy, hwb, Flush.busy] using h.flush
      have halloc : (s.flushIn i).alloc = false := by
        refine flushIn_alloc h.holds hst2.1.2 ?_
        by_contra hfl
        have hwalk := CmoFsm.walks_of_flushes (eq_true_of_ne_false hfl)
        rw [h.walks] at hwalk
        contradiction
      simp [Flush.dataRead, hf, Flush.doAlloc, halloc]
  have huc : s.uc.fsmQ = .idle := by simpa [Uncached.ready] using h.uc
  refine ⟨h.init, ?_⟩
  exact
    { dirMatch := st0ReqCachedirRead_eq_false (.inr h.busy)
      dirRefill := hdir
      dirInvalCheck := hcheck
      dirInvalWrite := hwrite
      dirCmoCheckNline := hnline
      dirCmoCheckEntry := hentry
      dirCmoUpdt := hupdt
      dirUpdt := hst2.2
      data := by
        intro u hr hw'
        cases u with
        | req => exact Bool.or_eq_false_iff.2 h.engine_uses
        | amo => simp [MemIn.uses, memIn, Uncached.dataAmoWrite, huc]
        | refill => exact MissHandler.comb_writeData h.refill hready
        | flush => exact hflush
        | errRead => exact absurd rfl hr
        | errWrite => exact absurd rfl hw' }

theorem along (h : s.Halted) (hs : Along Cache.step Walks s is) :
    Along Cache.step Stalled s is := by
  induction is generalizing s with
  | nil => exact trivial
  | cons i is ih =>
    refine ⟨h.stalled hs.1.2, ?_⟩
    cases is with
    | nil => exact trivial
    | cons j js => exact ih (h.step hs.1.2 hs.2.1.1) hs.2

/-- The handler still has the pipeline when it stops to walk. -/
theorem run (h : s.Halted) (hs : Along Cache.step Walks s is)
    (hb : (run Cache.step s is).err.busy = true) : (Hw.run Cache.step s is).Halted := by
  induction is generalizing s with
  | nil => exact h
  | cons i is ih =>
    refine ih ?_ hs.2 hb
    apply h.step hs.1.2
    cases is with
    | nil => exact hb
    | cons j js => exact hs.2.1.1

/-- No request enters during the walk. -/
theorem closed (h : s.Halted) (hs : Along Cache.step Walks s is) :
    Along Cache.step (fun v j => v.err.busy = true ∧ (v.step j).st1.reqValidQ = false) s is := by
  induction is generalizing s with
  | nil => exact trivial
  | cons i is ih =>
    refine ⟨⟨h.busy, closed_of_errBusy h.busy h.st1⟩, ?_⟩
    cases is with
    | nil => exact trivial
    | cons j js => exact ih (h.step hs.1.2 hs.2.1.1) hs.2

end Halted

/-- A request with errors in stage 1 hands the pipeline over to the handler. -/
theorem Exclusive.halted (h : s.Exclusive) (hidle : s.err.busy = false)
    (hstart : (s.step i).err.busy = true) : (s.step i).Halted := by
  have herr : (s.pe i).st1Err = true := by
    rcases ErrFsm.busy_step hstart with hb | ht
    · rw [hidle] at hb
      contradiction
    · exact ht.2
  have hn : (s.peIn i).normal = true := by
    by_contra hn
    obtain ⟨evt, he⟩ := hpdcacheCtrlPe_not_normal (c := c) (eq_false_of_ne_true hn)
    unfold pe at herr
    rw [he] at herr
    contradiction
  have hpe := Cache.pe_agrees hn h.scrub
  have herrs : (s.dec i).errs = true := by rw [← hpe.err, herr]
  obtain ⟨hcmo, hcommits, hsends, hnops, hne⟩ : s.dec i ≠ .cmo ∧ (s.dec i).commits = false ∧
      (s.dec i).sendsUc = false ∧ (s.dec i).nops = true ∧ s.dec i ≠ .idle := by
    cases hd : s.dec i <;> rw [hd] at herrs <;>
      first | contradiction | exact ⟨nofun, rfl, rfl, rfl, nofun⟩
  have hv : s.st1.reqValidQ = true := valid_of_dec hne
  have hnoNop : (s.peIn i).noNop c = false := by
    by_contra hno
    have hnone : (s.dec i).nops = false :=
      PeIn.noNop_st1 (peIn_decodes h.scrub) (eq_true_of_ne_false hno)
    rw [hnone] at hnops
    contradiction
  have hnorm := normal_iff.1 hn
  exact
    { busy := hstart
      init := initQ_step hnorm.1
      st1 := not_valid_step (.inl hn) fun hg => by
        have hno := hg.elim (fun hc => hc.noNop) fun hr => hr.noNop
        rw [hnoNop] at hno
        contradiction
      st2 := by
        rw [Cache.st2Busy_step hpe]
        by_contra hb
        rw [(Decision.nops_of_st2 (eq_true_of_ne_false hb)).2.1] at herrs
        contradiction
      refill := MissHandler.refillBusy_step hnorm.2.1
        (refillReqReady_eq_false (.inr (.inl hv)))
      flush := flushBusy_step_of_walks h.holds hnorm.2.2 h.st2 h.walks
      uc := Cache.uc_ready_step hpe h.uc hsends
      holds := Cmo.HoldsFlush.step h.holds
      walks := walks_step_eq_false h.walks h.cmo
      cmo := cmo_held_step hpe hcmo hcommits h.cmo }

end Cache

/-! ## A way -/

namespace Cache

open MemCtrl

variable {s : Cache c} {i : CacheIn c} {w : Fin c.ways} {is : List (CacheIn c)}

/-- What the handler writes in a cycle. -/
def rewrites (s : Cache c) (i : CacheIn c) : List (Rewrite c) :=
  let o := s.errOut i
  if o.dirWrite || o.datWrite then
    [⟨s.err.setQ, s.err.wayQ, s.err.datWordQ, if o.dirWrite then some o.dirWdata else none,
      if o.datWrite then some (s.err.fault.bytes.map o.datWdata) else none⟩]
  else []

/-- The handler has walked over some ways: it has written what it should, and the RAMs have changed
accordingly. -/
structure Walked (s : Cache c) (ws : List (Fin c.ways)) (is : List (CacheIn c)) : Prop where
  writes : trace Cache.step rewrites s is =
    ws.flatMap fun w => s.err.fault.repair w s.mem.dirRam s.mem.dataRam
  fault : (run Cache.step s is).err.fault = s.err.fault
  dir : (run Cache.step s is).mem.dirRam = s.err.fault.cleared ws s.mem.dirRam
  dat : (run Cache.step s is).mem.dataRam = s.err.fault.zeroed ws s.mem.dataRam

theorem Stalled.dirRam (h : s.Stalled i) (hw : s.err.wayQ = ofIndex w)
    (hr : (s.errOut i).dirRead = false) (set : Fin c.sets) (v : Fin c.ways) :
    (s.step i).mem.dirRam set v =
      if (s.errOut i).dirWrite = true ∧ set = s.err.setQ ∧ v = w then (s.errOut i).dirWdata
      else s.mem.dirRam set v :=
  OnlyErr.dirRam h.2 h.1 hr hw set v

theorem Stalled.dataRam (h : s.Stalled i) (hw : s.err.wayQ = ofIndex w) (set : Fin c.sets)
    (v : Fin c.ways) (b : Nat) :
    (s.step i).mem.dataRam set v b =
      if (s.errOut i).datWrite = true ∧ set = s.err.setQ ∧ v = w ∧ s.err.fault.inChunk b = true
      then (s.errOut i).datWdata (b % c.accessBytes) else s.mem.dataRam set v b := by
  have hram := OnlyErr.dataRam (m := s.mem) h.2 hw set v b
  simp only [Fault.inChunk, Bool.and_eq_true, decide_eq_true_eq]
  exact hram

/-- Without an access the RAMs stay. -/
theorem Stalled.idle (h : s.Stalled i) (hw : s.err.wayQ = ofIndex w)
    (ho : ErrFsm.Idles (s.errOut i)) : s.rewrites i = [] ∧
      (s.step i).mem.dirRam = s.mem.dirRam ∧ (s.step i).mem.dataRam = s.mem.dataRam := by
  refine ⟨?_, ?_, ?_⟩
  · rw [rewrites, ho.dirWrite, ho.datWrite]
    rfl
  · funext set v
    rw [h.dirRam hw ho.dirRead, ho.dirWrite, if_neg]
    simp
  · funext set v b
    rw [h.dataRam hw, ho.datWrite, if_neg]
    simp

theorem busy_of_fsm (hecc : c.eccEn = true) (h1 : s.err.fsmQ ≠ .idle)
    (h2 : s.err.fsmQ ≠ .waitMshr) : s.err.busy = true ∧ s.err.wait = false := by
  constructor
  · rw [ErrFsm.busy, hecc, decide_eq_true h1]
    rfl
  · rw [ErrFsm.wait, decide_eq_false h2, Bool.and_false]

/-- The handler looks at a way. -/
structure Checks (s : Cache c) (w : Fin c.ways) : Prop where
  ecc : c.eccEn = true
  fsm : s.err.fsmQ = .check
  way : s.err.wayQ = ofIndex w

theorem Checks.busy (h : s.Checks w) : s.err.busy = true ∧ s.err.wait = false :=
  busy_of_fsm h.ecc (by rw [h.fsm]; nofun) (by rw [h.fsm]; nofun)

theorem rewrites_eq : s.rewrites i =
    if (s.errOut i).dirWrite || (s.errOut i).datWrite then
      [⟨s.err.fault.set, s.err.wayQ, s.err.fault.word,
        if (s.errOut i).dirWrite then some (s.errOut i).dirWdata else none,
        if (s.errOut i).datWrite then some (s.err.fault.bytes.map (s.errOut i).datWdata)
          else none⟩]
    else [] := rfl

theorem Checks.walked_none (h : s.Checks w) (hs : s.Stalled i)
    (hu : s.err.fault.unc w = false) (hc : s.err.fault.cor w = false) :
    s.Walked [w] [i] ∧ (s.step i).err.Left w := by
  obtain ⟨ho, hleft⟩ := ErrFsm.check_none (i := s.errIn i) h.ecc h.way h.fsm hu hc
  obtain ⟨hw, hdir, hdat⟩ := hs.idle h.way ho
  refine ⟨⟨?_, ErrFsm.fault_step h.busy.1, ?_, ?_⟩, hleft⟩
  · simp [trace, hw, Fault.repair_none hu hc]
  · rw [run_cons, run_nil, hdir, Fault.cleared_of_not_unc hu]
  · rw [run_cons, run_nil, hdat, Fault.zeroed_of_not_unc hu]

theorem Checks.walked_unc {i j : CacheIn c} (h : s.Checks w) (hi : s.Stalled i)
    (hj : (s.step i).Stalled j) (hu : s.err.fault.unc w = true) :
    s.Walked [w] [i, j] ∧ ((s.step i).step j).err.Left w := by
  obtain ⟨ho, hf, hq⟩ := ErrFsm.check_unc (i := s.errIn i) h.ecc h.way h.fsm hu
  obtain ⟨hw, hdir, hdat⟩ := hi.idle h.way ho
  have hfault : (s.step i).err.fault = s.err.fault := ErrFsm.fault_step h.busy.1
  have hfsm : (s.step i).err.fsmQ = .inval := hf
  have hway : (s.step i).err.wayQ = ofIndex w := hq
  have hbusy : (s.step i).err.busy = true ∧ (s.step i).err.wait = false :=
    busy_of_fsm h.ecc (by simp [hfsm]) (by simp [hfsm])
  obtain ⟨h1, h2, h3, h4, h5, h6, hleft⟩ :=
    ErrFsm.inval_write (i := (s.step i).errIn j) h.ecc hway hfsm
  have hset : (s.step i).err.setQ = s.err.fault.set := congrArg Fault.set hfault
  have hdw : ((s.step i).errOut j).dirWrite = true := h2
  have hdd : ((s.step i).errOut j).dirWdata = .zero := h3
  have haw : ((s.step i).errOut j).datWrite = s.err.fault.datUnc w :=
    h5.trans (congrFun (congrArg Fault.datUnc hfault) w)
  have had : ((s.step i).errOut j).datWdata = fun _ => 0 := h6
  refine ⟨⟨?_, ?_, ?_, ?_⟩, hleft⟩
  · have hsnd : (s.step i).rewrites j = s.err.fault.repair w s.mem.dirRam s.mem.dataRam := by
      rw [rewrites_eq, Fault.repair_unc hu, hfault, hway, hdw, hdd, haw, had]
      rfl
    simp [trace, hw, hsnd]
  · rw [run_cons, run_cons, run_nil, ← hfault]
    exact ErrFsm.fault_step hbusy.1
  · funext set v
    rw [run_cons, run_cons, run_nil, hj.dirRam hway h1, hdir, hset, hdd]
    refine if_congr ?_ rfl rfl
    rw [List.mem_singleton]
    constructor
    · intro h
      exact ⟨h.2.1, h.2.2, h.2.2 ▸ hu⟩
    · intro h
      exact ⟨hdw, h.1, h.2.1⟩
  · funext set v b
    rw [run_cons, run_cons, run_nil, hj.dataRam hway, hdat, hset, hfault, haw, had,
      Fault.zeroed_apply]
    refine if_congr ?_ rfl rfl
    rw [List.mem_singleton]
    constructor
    · intro h
      exact ⟨h.2.1, h.2.2.1, h.2.2.1 ▸ h.1, h.2.2.2⟩
    · intro h
      exact ⟨h.2.1 ▸ h.2.2.1, h.1, h.2.1, h.2.2.2⟩

/-- The entry and the words of a way with correctable errors are read. -/
theorem Checks.reads (h : s.Checks w) (hi : s.Stalled i) (hu : s.err.fault.unc w = false)
    (hc : s.err.fault.cor w = true) :
    s.rewrites i = [] ∧ (s.step i).mem.dirRam = s.mem.dirRam ∧
      (s.step i).mem.dataRam = s.mem.dataRam ∧
      (s.err.fault.dirCor w = true →
        (s.step i).mem.dirErrRdata = s.mem.dirRam s.err.fault.set w) ∧
      (s.err.fault.datCor w = true → ∀ way a, s.err.fault.reaches a = true →
        (s.step i).mem.flushReadData way (ofIndex w) a =
          s.mem.dataRam s.err.fault.set w
            (s.err.fault.word / c.accessWords * c.accessBytes + a)) := by
  obtain ⟨hdr, hdw, har, haw, -, -⟩ := ErrFsm.check_cor (i := s.errIn i) h.ecc h.way h.fsm hu hc
  have hdr' : (s.memIn i).dirErrRead = s.err.fault.dirCor w := hdr
  have hdw' : (s.errOut i).dirWrite = false := hdw
  have har' : (s.memIn i).dataErrRead = s.err.fault.datCor w := har
  have haw' : (s.errOut i).datWrite = false := haw
  refine ⟨?_, ?_, ?_, ?_, ?_⟩
  · rw [rewrites_eq, hdw', haw']
    rfl
  · cases hr : s.err.fault.dirCor w with
    | true => exact (OnlyErr.dirRead hi.2 hi.1 h.ecc (hdr'.trans hr) h.way).2
    | false =>
      funext set v
      rw [hi.dirRam h.way (hdr.trans hr), hdw', if_neg]
      simp
  · funext set v b
    rw [hi.dataRam h.way, haw', if_neg]
    simp
  · intro hr
    exact (OnlyErr.dirRead hi.2 hi.1 h.ecc (hdr'.trans hr) h.way).1
  · intro hr way a ha
    exact OnlyErr.dataRead hi.2 h.ecc h.way (har'.trans hr) haw way ha

/-- The handler is about to write what it has read of a way. -/
structure Corrects (s u : Cache c) (w : Fin c.ways) : Prop where
  ecc : c.eccEn = true
  fsm : u.err.fsmQ = .correct
  way : u.err.wayQ = ofIndex w
  fault : u.err.fault = s.err.fault
  dirRam : u.mem.dirRam = s.mem.dirRam
  dataRam : u.mem.dataRam = s.mem.dataRam
  dir : s.err.fault.dirCor w = true → u.err.dirRdataQ = s.mem.dirRam s.err.fault.set w
  dat : s.err.fault.datCor w = true → ∀ a, s.err.fault.reaches a = true →
    u.err.datRdataQ a = s.mem.dataRam s.err.fault.set w
      (s.err.fault.word / c.accessWords * c.accessBytes + a)

theorem Corrects.busy {u : Cache c} (h : s.Corrects u w) : u.err.busy = true ∧ u.err.wait = false :=
  busy_of_fsm h.ecc (by rw [h.fsm]; nofun) (by rw [h.fsm]; nofun)

/-- What is read in a cycle is latched in the next one. -/
theorem Checks.corrects {i j : CacheIn c} (h : s.Checks w) (hi : s.Stalled i)
    (hj : (s.step i).Stalled j) (hu : s.err.fault.unc w = false)
    (hc : s.err.fault.cor w = true) :
    s.Corrects ((s.step i).step j) w ∧ s.rewrites i = [] ∧ (s.step i).rewrites j = [] ∧
      (s.step i).err.busy = true ∧ (s.step i).err.wait = false := by
  obtain ⟨hw, hdir, hdat, hdirr, hdatr⟩ := h.reads hi hu hc
  have hcheck := ErrFsm.check_cor (i := s.errIn i) h.ecc h.way h.fsm hu hc
  have hfault : (s.step i).err.fault = s.err.fault := ErrFsm.fault_step h.busy.1
  have hfsm : (s.step i).err.fsmQ = .latch := hcheck.2.2.2.2.1
  have hway : (s.step i).err.wayQ = ofIndex w := hcheck.2.2.2.2.2
  have hbusy : (s.step i).err.busy = true ∧ (s.step i).err.wait = false :=
    busy_of_fsm h.ecc (by rw [hfsm]; nofun) (by rw [hfsm]; nofun)
  obtain ⟨ho, hf2, hq2, hd2, ha2⟩ :=
    ErrFsm.latch_regs (i := (s.step i).errIn j) h.ecc hway hfsm
  obtain ⟨hw2, hdir2, hdat2⟩ := hj.idle hway ho
  refine ⟨⟨h.ecc, hf2, hq2, (ErrFsm.fault_step hbusy.1).trans hfault, hdir2.trans hdir,
    hdat2.trans hdat, ?_, ?_⟩, hw, hw2, hbusy⟩
  · intro hd
    have hcor : (s.step i).err.dirCorQ w = true :=
      (congrFun (congrArg Fault.dirCor hfault) w).trans hd
    rw [if_pos hcor] at hd2
    exact hd2.trans (hdirr hd)
  · intro hd a ha
    have hcor : (s.step i).err.datCorQ w = true :=
      (congrFun (congrArg Fault.datCor hfault) w).trans hd
    have hrd : ((s.step i).errIn j).datRdata =
        (s.step i).mem.flushReadData ((s.step i).flushRead j).way (ofIndex w) := by
      rw [← hway, errIn, if_pos h.ecc]
    rw [if_pos hcor, hrd] at ha2
    rw [show ((s.step i).step j).err.datRdataQ = _ from ha2]
    exact hdatr hd _ a ha

/-- It writes the entry and the words of the way as they were read, so they do not change. -/
theorem Corrects.write {u : Cache c} (h : s.Corrects u w) (hk : u.Stalled i)
    (hu : s.err.fault.unc w = false) (hc : s.err.fault.cor w = true) :
    u.rewrites i = s.err.fault.repair w s.mem.dirRam s.mem.dataRam ∧
      (u.step i).mem.dirRam = s.mem.dirRam ∧ (u.step i).mem.dataRam = s.mem.dataRam ∧
      (u.step i).err.fault = s.err.fault ∧ (u.step i).err.Left w := by
  obtain ⟨h1, h2, h3, -, h5, h6, hleft⟩ :=
    ErrFsm.correct_write (i := u.errIn i) h.ecc h.way h.fsm
  have hset : u.err.setQ = s.err.fault.set := congrArg Fault.set h.fault
  have hdw : (u.errOut i).dirWrite = s.err.fault.dirCor w :=
    h2.trans (congrFun (congrArg Fault.dirCor h.fault) w)
  have haw : (u.errOut i).datWrite = s.err.fault.datCor w :=
    h5.trans (congrFun (congrArg Fault.datCor h.fault) w)
  have hdd : (u.errOut i).dirWdata = u.err.dirRdataQ := h3
  have had : (u.errOut i).datWdata = u.err.datRdataQ := h6
  refine ⟨?_, ?_, ?_, (ErrFsm.fault_step h.busy.1).trans h.fault, hleft⟩
  · have hany : (s.err.fault.dirCor w || s.err.fault.datCor w) = true := hc
    rw [rewrites_eq, Fault.repair_cor hu hc, h.fault, h.way, hdw, haw, if_pos hany, hdd, had]
    have hdir : (if s.err.fault.dirCor w then some u.err.dirRdataQ else none) =
        if s.err.fault.dirCor w then some (s.mem.dirRam s.err.fault.set w) else none := by
      refine if_ctx_congr Iff.rfl (fun hd => ?_) (fun _ => rfl)
      rw [h.dir hd]
    have hdat : (if s.err.fault.datCor w then some (s.err.fault.bytes.map u.err.datRdataQ)
          else none) =
        if s.err.fault.datCor w then some (s.err.fault.bytes.map fun a =>
          s.mem.dataRam s.err.fault.set w
            (s.err.fault.word / c.accessWords * c.accessBytes + a)) else none := by
      refine if_ctx_congr Iff.rfl (fun hd => congrArg some ?_) (fun _ => rfl)
      apply List.map_congr_left
      intro a ha
      exact h.dat hd a (List.mem_filter.1 ha).2
    rw [hdir, hdat]
  · funext set v
    rw [hk.dirRam h.way h1, h.dirRam, hset, hdw, hdd]
    split_ifs with hwr
    · obtain ⟨hd, rfl, rfl⟩ := hwr
      exact h.dir hd
    · rfl
  · funext set v b
    rw [hk.dataRam h.way, h.dataRam, hset, h.fault, haw, had]
    split_ifs with hwr
    · obtain ⟨hd, rfl, rfl, hb⟩ := hwr
      rw [Fault.inChunk, Bool.and_eq_true, decide_eq_true_eq] at hb
      rw [h.dat hd _ hb.2, ← hb.1, Nat.mul_comm, Nat.div_add_mod]
    · rfl

theorem Checks.walked_cor {i j k : CacheIn c} (h : s.Checks w) (hi : s.Stalled i)
    (hj : (s.step i).Stalled j) (hk : ((s.step i).step j).Stalled k)
    (hu : s.err.fault.unc w = false) (hc : s.err.fault.cor w = true) :
    s.Walked [w] [i, j, k] ∧ (((s.step i).step j).step k).err.Left w := by
  obtain ⟨hcor, hw, hw2, hbusy⟩ := h.corrects hi hj hu hc
  obtain ⟨hw3, hdir, hdat, hfault, hleft⟩ := hcor.write hk hu hc
  refine ⟨⟨?_, hfault, ?_, ?_⟩, hleft⟩
  · simp [trace, hw, hw2, hw3]
  · rw [Fault.cleared_of_not_unc hu]
    exact hdir
  · rw [Fault.zeroed_of_not_unc hu]
    exact hdat

/-- The handler is busy all along. -/
theorem Checks.walks_way (h : s.Checks w) (hlen : is.length = s.err.fault.cost w) :
    Along Cache.step Walks s is := by
  cases hu : s.err.fault.unc w with
  | true =>
    rw [Fault.cost, if_pos hu] at hlen
    obtain ⟨i, j, rfl⟩ := List.length_eq_two.1 hlen
    have hf : (s.step i).err.fsmQ = .inval :=
      (ErrFsm.check_unc (i := s.errIn i) h.ecc h.way h.fsm hu).2.1
    exact ⟨h.busy, busy_of_fsm h.ecc (by rw [hf]; nofun) (by rw [hf]; nofun), trivial⟩
  | false =>
    cases hc : s.err.fault.cor w with
    | true =>
      simp only [Fault.cost, hu, hc, Bool.false_eq_true, if_false, if_true] at hlen
      obtain ⟨i, j, k, rfl⟩ := List.length_eq_three.1 hlen
      obtain ⟨-, -, -, -, hf, hway⟩ :=
        ErrFsm.check_cor (i := s.errIn i) h.ecc h.way h.fsm hu hc
      have hf : (s.step i).err.fsmQ = .latch := hf
      have hf2 : ((s.step i).step j).err.fsmQ = .correct :=
        (ErrFsm.latch_regs (i := (s.step i).errIn j) h.ecc hway hf).2.1
      exact ⟨h.busy, busy_of_fsm h.ecc (by rw [hf]; nofun) (by rw [hf]; nofun),
        busy_of_fsm h.ecc (by rw [hf2]; nofun) (by rw [hf2]; nofun), trivial⟩
    | false =>
      simp only [Fault.cost, hu, hc, Bool.false_eq_true, if_false] at hlen
      obtain ⟨i, rfl⟩ := List.length_eq_one_iff.1 hlen
      exact ⟨h.busy, trivial⟩

/-- **One way.** After the cycles of a way the handler has repaired it and leaves it. -/
theorem Checks.walked_way (h : s.Checks w) (hq : s.Halted)
    (hlen : is.length = s.err.fault.cost w) :
    Along Cache.step Walks s is ∧ s.Walked [w] is ∧ (run Cache.step s is).err.Left w := by
  have hwalks := h.walks_way hlen
  have hs := hq.along hwalks
  refine ⟨hwalks, ?_⟩
  cases hu : s.err.fault.unc w with
  | true =>
    rw [Fault.cost, if_pos hu] at hlen
    obtain ⟨i, j, rfl⟩ := List.length_eq_two.1 hlen
    exact h.walked_unc hs.1 hs.2.1 hu
  | false =>
    cases hc : s.err.fault.cor w with
    | true =>
      simp only [Fault.cost, hu, hc, Bool.false_eq_true, if_false, if_true] at hlen
      obtain ⟨i, j, k, rfl⟩ := List.length_eq_three.1 hlen
      exact h.walked_cor hs.1 hs.2.1 hs.2.2.1 hu hc
    | false =>
      simp only [Fault.cost, hu, hc, Bool.false_eq_true, if_false] at hlen
      obtain ⟨i, rfl⟩ := List.length_eq_one_iff.1 hlen
      exact h.walked_none hs.1 hu hc

/-! ## All the ways -/

/-- Two walks over different ways, one after the other. -/
theorem Walked.append {ws vs : List (Fin c.ways)} {js : List (CacheIn c)} (h : s.Walked ws is)
    (h' : (run Cache.step s is).Walked vs js) (hdisj : ∀ v ∈ vs, v ∉ ws) :
    s.Walked (ws ++ vs) (is ++ js) where
  writes := by
    have hsame : ∀ v ∈ vs, s.err.fault.repair v (run Cache.step s is).mem.dirRam
        (run Cache.step s is).mem.dataRam =
        s.err.fault.repair v s.mem.dirRam s.mem.dataRam := by
      intro v hv
      apply Fault.repair_congr
      · rw [h.dir, Fault.cleared, if_neg]
        exact fun hc => hdisj v hv hc.2.1
      · funext b
        rw [h.dat, Fault.zeroed_apply, if_neg]
        exact fun hc => hdisj v hv hc.2.1
    rw [trace_append, h.writes, h'.writes, h.fault, List.flatMap_append,
      List.flatMap_congr hsame]
  fault := by rw [run_append, h'.fault, h.fault]
  dir := by rw [run_append, h'.dir, h.fault, h.dir, Fault.cleared_append]
  dat := by rw [run_append, h'.dat, h.fault, h.dat, Fault.zeroed_append]

/-- The ways that are left, from one on. -/
def waysFrom (c : Cfg) (n : Nat) : List (Fin c.ways) := (List.finRange c.ways).drop n

theorem waysFrom_eq (w : Fin c.ways) : waysFrom c w.val = w :: waysFrom c (w.val + 1) := by
  have hlt : w.val < (List.finRange c.ways).length := by
    rw [List.length_finRange]
    exact w.isLt
  rw [waysFrom, List.drop_eq_getElem_cons hlt, waysFrom]
  simp

theorem le_of_mem_waysFrom {n : Nat} {v : Fin c.ways} (h : v ∈ waysFrom c n) : n ≤ v.val := by
  obtain ⟨k, hk, rfl⟩ := List.getElem_of_mem h
  simp [waysFrom]

/-- **The walk.** By induction on the number of ways that are left. -/
theorem Checks.walked (h : s.Checks w) (hq : s.Halted) {n : Nat} (hn : w.val + n + 1 = c.ways)
    (hlen : is.length = s.err.fault.cycles (waysFrom c w.val)) :
    Along Cache.step Walks s is ∧ s.Walked (waysFrom c w.val) is ∧
      (run Cache.step s is).err.fsmQ = (run Cache.step s is).err.last := by
  induction n generalizing s w is with
  | zero =>
    have hend : w.val + 1 = c.ways := by omega
    have hnil : waysFrom c (w.val + 1) = [] := by
      rw [waysFrom, hend]
      exact List.drop_eq_nil_of_le (by rw [List.length_finRange])
    rw [waysFrom_eq, hnil] at hlen ⊢
    obtain ⟨hwalks, hwalked, hleft⟩ := h.walked_way hq (by simpa [Fault.cycles] using hlen)
    exact ⟨hwalks, hwalked, hleft.2 hend⟩
  | succ n ih =>
    have hlt : w.val + 1 < c.ways := by omega
    rw [waysFrom_eq] at hlen ⊢
    rw [Fault.cycles, List.map_cons, List.sum_cons] at hlen
    obtain ⟨js, ks, rfl, hjs⟩ : ∃ js ks, is = js ++ ks ∧ js.length = s.err.fault.cost w :=
      ⟨_, _, (List.take_append_drop (s.err.fault.cost w) is).symm, by
        rw [List.length_take]; omega⟩
    obtain ⟨hwalks, hwalked, hleft⟩ := h.walked_way hq hjs
    obtain ⟨hfsm, hway⟩ := hleft.1 hlt
    have hnext : (run Cache.step s js).Checks ⟨w.val + 1, hlt⟩ := ⟨h.ecc, hfsm, hway⟩
    have hks : ks.length =
        (run Cache.step s js).err.fault.cycles (waysFrom c (w.val + 1)) := by
      rw [List.length_append, hjs] at hlen
      rw [hwalked.fault]
      exact Nat.add_left_cancel hlen
    obtain ⟨hwalks', hwalked', hlast⟩ := ih hnext (hq.run hwalks hnext.busy.1)
      (show w.val + 1 + n + 1 = c.ways by omega) hks
    rw [run_append]
    refine ⟨along_append.2 ⟨hwalks, hwalks'⟩, ?_, hlast⟩
    apply hwalked.append hwalked'
    intro v hv hvw
    have hle : w.val + 1 ≤ v.val := le_of_mem_waysFrom hv
    rw [List.mem_singleton.1 hvw] at hle
    omega

/-! ## The release -/

/-- While it waits the handler writes nothing. It stops when no miss is outstanding. -/
theorem released (hw : s.err.wait = true) :
    s.rewrites i = [] ∧ (s.step i).err.busy = !s.mshrEmpty ∧
      (s.step i).err.wait = !s.mshrEmpty := by
  rw [ErrFsm.wait, Bool.and_eq_true, decide_eq_true_eq] at hw
  obtain ⟨hecc, hf⟩ := hw
  have hcomb : s.errOut i =
      { s.err.default with fsmD := if s.mshrEmpty then .idle else .waitMshr } := by
    simp only [errOut, ErrFsm.comb, hecc, hf, if_true]
    rfl
  have hfsm : (s.step i).err.fsmQ = if s.mshrEmpty then .idle else .waitMshr := by
    show (s.err.step (s.errIn i)).fsmQ = _
    have hstep : (s.err.step (s.errIn i)).fsmQ = (s.errOut i).fsmD := by
      simp [ErrFsm.step, errOut, hecc]
    rw [hstep, hcomb]
  refine ⟨?_, ?_, ?_⟩
  · rw [rewrites_eq, hcomb]
    rfl
  · rw [ErrFsm.busy, hfsm, hecc]
    cases s.mshrEmpty <;> rfl
  · rw [ErrFsm.wait, hfsm, hecc]
    cases s.mshrEmpty <;> rfl

/-- The handler waits as long as a miss is outstanding. -/
theorem waits_run (hw : s.err.wait = true) (hv : s.st1.reqValidQ = false)
    (hs : Along Cache.step (fun v _ => v.mshrEmpty = false) s is) :
    (run Cache.step s is).err.wait = true ∧ (run Cache.step s is).st1.reqValidQ = false ∧
      trace Cache.step rewrites s is = [] := by
  induction is generalizing s with
  | nil => exact ⟨hw, hv, rfl⟩
  | cons i is ih =>
    obtain ⟨hno, -, hwait⟩ := released (i := i) hw
    rw [hs.1] at hwait
    have hb : s.err.busy = true := ErrFsm.busy_of_wait hw
    obtain ⟨hrun, hrunv, htr⟩ := ih hwait (closed_of_errBusy hb hv) hs.2
    refine ⟨hrun, hrunv, ?_⟩
    rw [trace, hno, htr]
    rfl

/-- The recovery from the fault that a request shows, from the state after it on. The handler walks
the ways, at most three cycles a way, and no request enters meanwhile: it clears the ways with an
uncorrectable error, and writes the ways with correctable errors only with what was read of them.
Nothing else changes in the RAMs. When it has cleared a way it then waits, without a write, and lets
the requests enter after the first cycle without an outstanding miss. -/
theorem recovers (h : s.Exclusive) (hidle : s.err.busy = false)
    (hstart : (s.step i).err.busy = true) :
    let f := (s.errIn i).fault
    let t := s.step i
    let ws := List.finRange c.ways
    f.cycles ws ≤ 3 * c.ways ∧
    ∀ is : List (CacheIn c), is.length = f.cycles ws →
      let u := run Cache.step t is
      Along Cache.step (fun v j => v.err.busy = true ∧ (v.step j).st1.reqValidQ = false) t is ∧
      trace Cache.step rewrites t is =
        ws.flatMap (fun w => f.repair w t.mem.dirRam t.mem.dataRam) ∧
      u.mem.dirRam = f.cleared ws t.mem.dirRam ∧ u.mem.dataRam = f.zeroed ws t.mem.dataRam ∧
      u.err.busy = any f.unc ∧
      (any f.unc = true → ∀ js : List (CacheIn c),
        Along Cache.step (fun v _ => v.mshrEmpty = false) u js →
        let v := run Cache.step u js
        trace Cache.step rewrites u js = [] ∧ v.err.busy = true ∧
          ∀ j, v.rewrites j = [] ∧ (v.step j).st1.reqValidQ = false ∧
            (v.step j).err.busy = !v.mshrEmpty) := by
  intro f t ws
  obtain ⟨hfault, hfsm, hway⟩ := ErrFsm.start_step (i := s.errIn i) hidle hstart
  have hhalted : t.Halted := h.halted hidle hstart
  have hfault : t.err.fault = f := hfault
  have hcheck : t.Checks ⟨0, c.ways_pos⟩ := ⟨ErrFsm.ecc_of_busy hstart, hfsm, hway⟩
  refine ⟨?_, ?_⟩
  · have hle := f.cycles_le ws
    rwa [List.length_finRange] at hle
  intro is hlen u
  have hpos := c.ways_pos
  obtain ⟨hwalks, hwalked, hlast⟩ := hcheck.walked hhalted (n := c.ways - 1)
    (by show 0 + (c.ways - 1) + 1 = c.ways; omega) (by rw [hfault]; exact hlen)
  have hwrites := hwalked.writes
  have hdir := hwalked.dir
  have hdat := hwalked.dat
  rw [hfault] at hwrites hdir hdat
  have hunc : u.err.errUnc = any f.unc := by
    rw [ErrFsm.errUnc_eq, hwalked.fault, hfault]
  have hbusy : u.err.busy = any f.unc := by
    rw [ErrFsm.busy, hlast, ErrFsm.last, hunc, hcheck.ecc]
    cases any f.unc <;> rfl
  refine ⟨hhalted.closed hwalks, hwrites, hdir, hdat, hbusy, fun hany js hjs => ?_⟩
  have hwait : u.err.wait = true := by
    rw [ErrFsm.wait, hlast, ErrFsm.last, hunc, hcheck.ecc, hany]
    rfl
  obtain ⟨hv, hv1, htr⟩ := waits_run hwait (hhalted.run hwalks (hbusy.trans hany)).st1 hjs
  refine ⟨htr, ErrFsm.busy_of_wait hv, fun j => ⟨(released hv).1, ?_, (released hv).2.1⟩⟩
  exact closed_of_errBusy (ErrFsm.busy_of_wait hv) hv1

/-- In a regular run the controller keeps its promise to the handler. -/
theorem Inv.exclusive (h : s.Inv) (hidle : s.err.busy = false)
    (hstart : (s.step i).err.busy = true) : s.Exclusive := by
  obtain ⟨S, front, ht⟩ := h.tabled
  have hv : s.st1.reqValidQ = true := by
    rcases h.owned.err_busy_step hstart with hb | ⟨hv, -⟩
    · rw [hidle] at hb
      contradiction
    · exact hv
  refine
    { scrub := h.owned.scrub hv
      st2 := h.owned.st1_st2 hv
      uc := ?_
      holds := h.owned.holds
      walks := ?_
      cmo := ?_ }
  · by_contra hu
    rw [(h.closed_of_ucBusy (i := CacheIn.idle c) (eq_false_of_ne_true hu)).1] at hv
    contradiction
  · by_contra hw
    rw [(h.owned.walk (eq_true_of_ne_false hw)).1] at hv
    contradiction
  · cases hr : s.st1.reqQ.fromRtab with
    | false => exact .inl (h.owned.core hv hr).1
    | true =>
      right
      simp only [Rtab.empty, Bool.not_eq_false', any_eq_true]
      exact ⟨_, ht.valid_popped (popped_eq_some.2 ⟨hv, hr, rfl⟩)⟩

end Cache

/-- A load, in stage 1, when the directory reports an error in the first way of its set. -/
def loadInError : Cache eccCfg :=
  run Cache.step (Cache.blank _).reset [.idle _, .idle _, .ask (.access .load 1 false)]

theorem loadInError_recovers :
    let f := (loadInError.errIn (.dirError _)).fault
    let t := loadInError.step (.dirError _)
    let ws := List.finRange eccCfg.ways
    f.cycles ws ≤ 3 * eccCfg.ways ∧
    ∀ is : List (CacheIn eccCfg), is.length = f.cycles ws →
      let u := run Cache.step t is
      Along Cache.step (fun v j => v.err.busy = true ∧ (v.step j).st1.reqValidQ = false) t is ∧
      trace Cache.step Cache.rewrites t is =
        ws.flatMap (fun w => f.repair w t.mem.dirRam t.mem.dataRam) ∧
      u.mem.dirRam = f.cleared ws t.mem.dirRam ∧ u.mem.dataRam = f.zeroed ws t.mem.dataRam ∧
      u.err.busy = any f.unc ∧
      (any f.unc = true → ∀ js : List (CacheIn eccCfg),
        Along Cache.step (fun v _ => v.mshrEmpty = false) u js →
        let v := run Cache.step u js
        trace Cache.step Cache.rewrites u js = [] ∧ v.err.busy = true ∧
          ∀ j, v.rewrites j = [] ∧ (v.step j).st1.reqValidQ = false ∧
            (v.step j).err.busy = !v.mshrEmpty) := by
  have hcmo : loadInError.cmo.flushFifo = [] := by decide +kernel
  have hidle : loadInError.err.busy = false := by decide +kernel
  have hstart : (loadInError.step (.dirError _)).err.busy = true := by decide +kernel
  exact Cache.recovers
    { scrub := by decide +kernel
      st2 := by decide +kernel
      uc := by decide +kernel
      holds := fun hne => absurd hcmo hne
      walks := by decide +kernel
      cmo := .inl (by decide +kernel) } hidle hstart

end Hpdcache
