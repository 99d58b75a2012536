import Hpdcache.Vacant
import Hpdcache.Lrsc

/-!
# Abort

A virtually indexed request may be aborted in its second cycle, in which it is in stage 1. What the
units are given of it is then of no effect, but for the snoop of the reservation, so that the cache
is left as if the request had not been there. It has held back the refill that waited for the
pipeline, and a store has taken the reservation away.

* `Cache.step_aborts` — the cycle of the abort, and the one in which stage 1 is vacant.
* `Cache.abort_run` — in every state reached, an aborted request leaves nothing behind.
-/

namespace Hpdcache

open Hw

variable {c : Cfg} {l k : Lookup c}

/-! ## The protocol engine -/

/-- No request of the core arrives. -/
def PeIn.withoutCore (i : PeIn) : PeIn := { i with coreReqValid := false }

/-- The same inputs with those of stage 1 taken from `j`. -/
def PeIn.withSt1 (i j : PeIn) : PeIn :=
  { j with
    coreReqValid := i.coreReqValid
    scrubReqValid := i.scrubReqValid
    rtabReqValid := i.rtabReqValid
    refillReqValid := i.refillReqValid
    st0ReqIsError := i.st0ReqIsError
    st0ReqIsUncacheable := i.st0ReqIsUncacheable
    st0ReqIsLoad := i.st0ReqIsLoad
    st0ReqIsScrub := i.st0ReqIsScrub
    st0ReqIsStore := i.st0ReqIsStore
    st0ReqIsAmo := i.st0ReqIsAmo
    st0ReqIsCmoPrefetch := i.st0ReqIsCmoPrefetch
    st0ReqIsPartial := i.st0ReqIsPartial
    errBusy := i.errBusy
    errWait := i.errWait
    st2MshrAlloc := i.st2MshrAlloc
    st2MshrAllocIsPrefetch := i.st2MshrAllocIsPrefetch
    st2MshrAllocWback := i.st2MshrAllocWback
    st2MshrAllocDirty := i.st2MshrAllocDirty
    st2DirUpdt := i.st2DirUpdt
    st2FlushAlloc := i.st2FlushAlloc
    rtabFull := i.rtabFull
    rtabFence := i.rtabFence
    cachedirInitReady := i.cachedirInitReady
    refillBusy := i.refillBusy
    refillCoreRspValid := i.refillCoreRspValid
    flushBusy := i.flushBusy
    ucBusy := i.ucBusy
    cmoBusy := i.cmoBusy
    cmoWait := i.cmoWait }

/-- Stage 1 drives neither the write buffer, nor the data, nor the replacement. -/
structure PeOut.St1Quiet (o : PeOut) : Prop where
  wbufWrite : o.wbufWriteValid = false
  wbufReadFlushHit : o.wbufReadFlushHit = false
  dataWrite : o.st1ReqCachedataWrite = false
  updtSelVictim : o.st1ReqCachedirUpdtSelVictim = false
  selVictim : o.st1ReqCachedirSelVictim = false

/-- A decision without a nop starts nothing that keeps the pipeline busy. -/
theorem Decision.of_not_nops {d : Decision} (h : d.nops = false) :
    d.holds = false ∧ d ≠ .link ∧ d ≠ .cmo ∧ d.sendsUc = false ∧ d.errs = false := by
  cases d <;> first | contradiction | simp [holds, sendsUc, errs]

section

variable {i j : PeIn}

/-- Without the request of the core nothing is granted and nothing is looked up. -/
theorem PeIn.GrantCore.withoutCore (h : i.GrantCore c) :
    hpdcacheCtrlPe c i.withoutCore =
      { hpdcacheCtrlPe c i with
        coreReqReady := false
        st1ReqValid := false
        st0ReqMshrCheck := false
        st0ReqCachedirRead := false
        st0ReqCachedataRead := false
        reqCachedataRead := (hpdcacheCtrlPe c i).st1ReqCachedataRead
        evt := { (hpdcacheCtrlPe c i).evt with stall := false } } := by
  have hstage : stage1 c i.withoutCore = stage1 c i := rfl
  have hn : i.withoutCore.normal = true := h.normal
  rw [hpdcacheCtrlPe_normal h.normal, hpdcacheCtrlPe_normal hn, hstage]
  simp only [newRequest, PeIn.withoutCore, PeIn.st1Fence, h.not_rtab, h.not_scrub, h.valid,
    Bool.false_and, Bool.or_false, Bool.false_or]

theorem stage1_aborted (hv : i.st1ReqValid = true) (ha : i.st1ReqAbort = true)
    (hr : i.st1ReqRtab = false) : stage1 c i =
      { st2Pending i (PeOut.default i) with
        rtabCheck := !i.st1Fence
        st1RspValid := i.st1ReqNeedRsp
        st1RspAborted := true } := by
  simp [stage1, st1Request, hv, ha, hr]

theorem st2Pending_withSt1 : st2Pending (i.withSt1 j) (PeOut.default (i.withSt1 j)) =
    { st2Pending i (PeOut.default i) with st1ReqValid := j.st1ReqValid } := by
  obtain ⟨u, hu⟩ : ∃ u, i.st2DirUpdt = u := ⟨_, rfl⟩
  obtain ⟨updt, valid, wback, dirty, fetch⟩ := u
  cases hm : i.st2MshrAlloc <;> cases hf : i.st2FlushAlloc <;> cases updt <;>
    simp [st2Pending, st2PendingMshr, st2PendingFlush, st2PendingDirUpdt, PeOut.default,
      PeIn.withSt1, hm, hf, hu]

theorem stage1_vacant (hv : j.st1ReqValid = false) : stage1 c (i.withSt1 j) =
    { st2Pending i (PeOut.default i) with st1ReqValid := false } := by
  have hj : (i.withSt1 j).st1ReqValid = false := hv
  unfold stage1 st1Request
  rw [if_neg (by simp [hj]), st2Pending_withSt1, hv]

/-- An aborted request is answered, and holds back the refills. -/
theorem hpdcacheCtrlPe_aborted (hn : i.normal = true) (hv : i.st1ReqValid = true)
    (ha : i.st1ReqAbort = true) (hr : i.st1ReqRtab = false) (hj : j.st1ReqValid = false) :
    hpdcacheCtrlPe c i =
      { hpdcacheCtrlPe c (i.withSt1 j) with
        refillReqReady := false
        rtabCheck := !i.st1Fence
        st1RspValid := i.st1ReqNeedRsp
        st1RspAborted := true
        st1RtabDeps := { pendTrans := i.st1Fence } } := by
  have hn' : (i.withSt1 j).normal = true := hn
  rw [hpdcacheCtrlPe_normal hn, hpdcacheCtrlPe_normal hn', stage1_aborted hv ha hr,
    stage1_vacant hj, st2Pending_default]
  simp only [newRequest, hv, st1Start, hr, Bool.not_true, Bool.and_false, Bool.false_and]
  rfl

theorem hpdcacheCtrlPe_st1Quiet (hn : i.normal = true) (hv : i.st1ReqValid = false) :
    (hpdcacheCtrlPe c i).St1Quiet := by
  rw [hpdcacheCtrlPe_normal hn]
  unfold stage1 st1Request
  rw [if_neg (by simp [hv]), st2Pending_default]
  exact ⟨rfl, rfl, rfl, rfl, rfl⟩

/-- A request that is no operation, as the read of the scrubber, is decided upon as well. -/
theorem stage1_agrees_of_none (hl : i.st1ReqIsLoad = false) (hs : i.st1ReqIsStore = false)
    (ha : i.st1ReqIsAmo = false) (hp : i.st1ReqIsCmoPrefetch = false) :
    ∃ d, Agrees i d (stage1 c i) := by
  obtain h | ⟨-, -, o, h, ho⟩ := stage1_agrees_or (c := c) (i := i)
  · exact ⟨_, h⟩
  rw [ho]
  by_cases he : (c.eccEn && (i.st1DirErrUnc || i.st1DatErrUncDirty)) = true ∨
    (c.eccEn && (i.st1DirErrCor || i.st1DatErrCor || i.st1DatErrUnc)) = true
  · exact ⟨_, h.eccError he⟩
  · obtain ⟨hunc, hcor⟩ := not_or.1 he
    refine ⟨.idle, ?_⟩
    rw [st1EccError, if_neg hunc, if_neg hcor, st1Amo, if_neg (by simp [ha]), st1Load,
      if_neg (by simp [hl, hp]), st1Store, if_neg (by simp [hs])]
    exact h

end

/-! ## The cache but for its lookups -/

/-- The same cycle without the request of the core. -/
def CacheIn.withoutCore (i : CacheIn c) : CacheIn c := { i with coreReqValid := false }

namespace Cache

variable {s : Cache c} {i : CacheIn c}

def look (s : Cache c) (l : Lookup c) : Cache c :=
  { s with
    st1 := { s.st1 with reqQ := l.reqQ }
    rsp := l.rsp
    dataReqReadWayQ := l.dataReqReadWayQ
    mem := s.mem.look l
    miss := s.miss.look l }

/-- What the registers of the lookups hold. -/
def lookup (s : Cache c) : Lookup c where
  reqQ := s.st1.reqQ
  rsp := s.rsp
  dataReqReadWayQ := s.dataReqReadWayQ
  dirRentry := s.mem.dirRentry
  dirReqSetQ := s.mem.dirReqSetQ
  dataRentry := s.mem.dataRentry
  dataReadReqWordIndexQ := s.mem.dataReadReqWordIndexQ
  mshrRentry := s.miss.mshr.rentry
  checkCacheSetQ := s.miss.mshr.checkCacheSetQ

/-- The states agree but for the registers of the lookups. -/
def EqButLookups (s t : Cache c) : Prop := ∀ l, s.look l = t.look l

theorem EqButLookups.validQ {t : Cache c} (h : s.EqButLookups t) :
    s.miss.mshr.validQ = t.miss.mshr.validQ :=
  congrArg (·.miss.mshr.validQ) (h s.lookup)

theorem EqButLookups.lrscValidQ {t : Cache c} (h : s.EqButLookups t) :
    s.uc.lrscValidQ = t.uc.lrscValidQ :=
  congrArg (·.uc.lrscValidQ) (h s.lookup)

/-- The same state with stage 1 vacant. -/
def vacate (s : Cache c) : Cache c := { s with st1 := { s.st1 with reqValidQ := false } }

/-- The state but for the reservation. -/
def unreserved (s : Cache c) : Cache c := { s with uc := s.uc.unreserved }

/-- One cycle in which a refill that waits for the pipeline does not get it. -/
def stepHeld (s : Cache c) (i : CacheIn c) : Cache c :=
  { s.step i with miss := s.miss.step { s.missIn i with refillReqReady := false } }

theorem look_lookup : s.look s.lookup = s := rfl

theorem look_eq {s t : Cache c} (valid : s.st1.reqValidQ = t.st1.reqValidQ)
    (ptr : s.st1.rtabPopTryPtrQ = t.st1.rtabPopTryPtrQ) (st2 : s.st2 = t.st2)
    (cmoSets : s.cmoSets = t.cmoSets) (mem : s.mem.look l = t.mem.look l)
    (miss : s.miss.look l = t.miss.look l) (wbuf : s.wbuf = t.wbuf) (flush : s.flush = t.flush)
    (uc : s.uc = t.uc) (cmo : s.cmo = t.cmo) (err : s.err = t.err) (scrub : s.scrub = t.scrub)
    (rtab : s.rtab = t.rtab) : s.look l = t.look l := by
  simp only [look, valid, ptr, st2, cmoSets, mem, miss, wbuf, flush, uc, cmo, err, scrub, rtab]

theorem stepHeld_eq (hr : s.miss.refillReqValid = false) : s.stepHeld i = s.step i := by
  have hready : (s.pe i).refillReqReady = false := refillReqReady_eq_false (.inl hr)
  have hin : { s.missIn i with refillReqReady := false } = s.missIn i := by
    unfold missIn
    rw [hready]
  unfold stepHeld
  rw [hin]
  rfl

/-- Stage 1 starts nothing in the other units. -/
structure AsksNothing (s : Cache c) (i : CacheIn c) : Prop where
  uc : (s.ucIn i).reqValid = false
  cmo : (s.cmoIn i).reqValid = false
  err : (s.errIn i).trigger = false
  alloc : (s.rtabIn i).alloc = false
  link : (s.rtabIn i).allocAndLink = false
  rback : (s.rtabIn i).popRback = false

theorem asksNothing {d : Decision} (h : PeAgrees (s.peIn i) d (s.pe i)) (hd : d.nops = false) :
    s.AsksNothing i := by
  obtain ⟨hholds, hlink, hcmo, huc, herr⟩ := Decision.of_not_nops hd
  exact
    { uc := h.ucReq.trans huc
      cmo := h.cmoReq.trans (decide_eq_false hcmo)
      err := h.err.trans herr
      alloc := h.alloc.trans (by rw [hholds]; rfl)
      link := h.link.trans (decide_eq_false hlink)
      rback := h.rback.trans (by rw [hholds]; rfl) }

/-- What is done with the request in stage 1 is a decision. -/
theorem exists_agrees (s : Cache c) (i : CacheIn c) :
    ∃ d, Agrees (s.peIn i) d (stage1 c (s.peIn i)) := by
  by_cases hload : ((s.st1Req i).errScrubbing && (s.st1Req i).req.op.isLoad) = true
  · simp only [Bool.and_eq_true] at hload
    refine stage1_agrees_of_none ?_ ?_ ?_ ?_ <;>
      cases hop : (s.st1Req i).req.op <;>
        simp_all [peIn, ReqOp.isLoad, ReqOp.isStore, ReqOp.isAmo, ReqOp.isCmoPrefetch]
  · have hd : (s.peIn i).St1Decodes (s.st1Req i).req.op := by
      refine ⟨?_, rfl, rfl, rfl, rfl, rfl, rfl⟩
      cases hl : (s.st1Req i).req.op.isLoad <;> simp_all [peIn]
    exact ⟨_, stage1_agrees hd⟩

/-! ## Calm -/

/-- The refill FSM, when it does not have the pipeline, asks nothing of the other units but the
lookup of the line of an invalidation. -/
structure RefillQuiet (s : Cache c) (i : CacheIn c) : Prop where
  updtRtab : (s.refill i).updtRtab = false
  writeDir : (s.refill i).writeDir = false
  writeData : (s.refill i).writeData = false
  invalWriteDir : (s.refill i).invalWriteDir = false
  updtSelVictim : (s.refill i).updtSelVictim = false
  way : s.miss.refillWay (s.refill i) = fun _ => false

/-- Nothing but the pipeline is at work, the refill of a line apart. -/
structure Calm (s : Cache c) : Prop where
  normal : s.normal = true
  cmo : s.cmo.fsmQ = .idle
  fifo : s.cmo.flushFifo = []
  uc : s.uc.fsmQ = .idle
  err : s.err.busy = false
  fence : s.rtab.fence = false

theorem calm_of_grant (h : (s.peIn i).GrantCore c) (hf : s.cmo.HoldsFlush) : s.Calm := by
  have hcmo : s.cmo.fsmQ = .idle := by
    have hbusy : s.cmoBusy = false := h.not_cmo
    simp only [cmoBusy, Cmo.reqReady, Bool.not_eq_false', Bool.and_eq_true,
      decide_eq_true_eq] at hbusy
    exact hbusy.1
  exact
    { normal := h.normal
      cmo := hcmo
      fifo := by
        by_contra hne
        have hidle := (hf hne).2
        rw [hcmo] at hidle
        contradiction
      uc := by
        have hbusy : s.ucBusy = false := h.not_uc
        simpa [ucBusy, Uncached.ready] using hbusy
      err := h.not_err
      fence := h.not_fence }

/-- A request of the core is granted when stage 1 starts nothing. -/
theorem asksNothing_of_grant (h : (s.peIn i).GrantCore c) : s.AsksNothing i := by
  obtain ⟨d, hd⟩ := exists_agrees s i
  refine asksNothing (hd.pe h.normal) ?_
  by_contra hn
  have hnop := hd.nop (by simpa using hn)
  have hno := h.noNop
  simp [PeIn.noNop, hnop] at hno

namespace Calm

variable (h : s.Calm)
include h

theorem refillIdle : s.miss.refillFsmQ = .idle := by
  have hbusy := (normal_iff.1 h.normal).2.1
  simpa [MissHandler.refillBusy] using hbusy

theorem cmoFlushAlloc : s.cmoFlushAlloc i = none := by
  unfold Cache.cmoFlushAlloc Cmo.flushAlloc
  rw [Cmo.flushReqIn_eq_none (by rw [h.cmo]; rfl), h.fifo]
  simp [Fifo.rdata]

theorem cmoOut (hq : s.AsksNothing i) : s.cmoOut i =
    { s.cmo.default with rspSendD := s.cmo.rspSendQ && !s.cmo.rspR (s.cmoIn i).coreRspReady } :=
  Cmo.comb_of_idle h.cmo hq.cmo

theorem errOut (hq : s.AsksNothing i) : s.errOut i = s.err.default :=
  ErrFsm.comb_of_idle h.err hq.err

theorem step (hq : s.AsksNothing i) (hst2 : s.st2.flushAllocQ = false)
    (hr : (s.pe i).refillReqReady = false) : (s.step i).Calm where
  normal := by
    refine normal_step h.normal hr (flushBusy_step (fun hne => absurd h.fifo hne) ?_ hst2 ?_)
    · exact (normal_iff.1 h.normal).2.2
    · rw [h.cmo]
      rfl
  cmo := Cmo.idle_step h.cmo hq.cmo
  fifo := by
    have hnone : s.cmo.flushReqIn (s.cmoIn i) = none :=
      Cmo.flushReqIn_eq_none (by rw [h.cmo]; rfl)
    show (s.cmo.step (s.cmoIn i)).flushFifo = []
    simp [Cmo.step, hnone, h.fifo]
  uc := by
    show s.uc.fsmD (s.ucIn i) = .idle
    simp [Uncached.fsmD, h.uc, Uncached.idleD, hq.uc]
  err := by
    show (s.err.step (s.errIn i)).busy = false
    rw [ErrFsm.step_of_idle h.err hq.err]
    exact h.err
  fence := by
    refine any_eq_false.2 fun k => ?_
    have hk : (s.rtab.depsQ k).pendTrans = false := any_eq_false.1 h.fence k
    show (RtabDeps.setRst (s.rtab.depsQ k) (s.rtab.depsSet (s.rtabIn i) k)
      (s.rtab.depsRst (s.rtabIn i) k)).pendTrans = false
    simp [RtabDeps.setRst, Rtab.depsSet, Rtab.allocBv, Rtab.rbackBv, hq.alloc, hq.link, hq.rback,
      hk, setRst]

theorem refillQuiet : s.RefillQuiet i := by
  have hway : s.miss.refillWay (s.refill i) = fun _ => false := by
    funext w
    simp [MissHandler.refillWay, (normal_iff.1 h.normal).2.1]
  refine ⟨?_, ?_, ?_, ?_, ?_, hway⟩ <;>
    simp only [refill, MissHandler.refillComb, h.refillIdle, MissHandler.refillIdle,
      MissHandler.refillDefault] <;> split_ifs <;> rfl

/-- Without a grant the refill FSM looks nothing up. -/
theorem invalCheckDir (hr : (s.pe i).refillReqReady = false) :
    (s.refill i).invalCheckDir = false := by
  have hready : (s.missIn i).refillReqReady = false := hr
  simp only [refill, MissHandler.refillComb, h.refillIdle, MissHandler.refillIdle, hready]
  split_ifs <;> first | contradiction | rfl

/-- Without an update from stage 2 nothing but a lookup uses the directory. -/
theorem dirFree (hq : s.AsksNothing i) (hd : s.st2.dirUpdtQ.updt = false) :
    (s.memIn i).DirFree := by
  have hcmo := h.cmoOut hq
  have herr := h.errOut hq
  have hr := h.refillQuiet (i := i)
  exact
    { refill := hr.writeDir
      invalWrite := hr.invalWriteDir
      cmoCheckNline := by simp [memIn, hcmo, Cmo.default]
      cmoCheckEntry := by simp [memIn, hcmo, Cmo.default]
      cmoUpdt := by simp [memIn, hcmo, Cmo.default]
      updt := hd
      errRead := by simp [memIn, herr, ErrFsm.default]
      errWrite := by simp [memIn, herr, ErrFsm.default] }

theorem unrequested (hp : (s.pe i).St1Quiet) : (s.memIn i).Unrequested := by
  have hr := h.refillQuiet (i := i)
  exact
    { updtSelVictim := hp.updtSelVictim
      victimSel := hp.selVictim
      refill := hr.writeDir
      refillUpdtSelVictim := hr.updtSelVictim
      invalWrite := hr.invalWriteDir
      dataWrite := hp.dataWrite
      dataRefill := hr.writeData }

/-- The sets that may hold dirty lines follow the update of stage 2. -/
theorem stepCmoSets (hq : s.AsksNothing i) : s.stepCmoSets i =
    let updt := s.st2.dirUpdtQ.updt && s.st2.dirUpdtQ.dirty
    { s.cmoSets with
      dirtyEnQ := updt || s.cmoSets.dirtyEnQ
      dirtyMinQ :=
        if updt then
          (if s.cmoSets.dirtyEnQ then minSet s.st2.dirUpdtSetQ s.cmoSets.dirtyMinQ
           else s.st2.dirUpdtSetQ)
        else s.cmoSets.dirtyMinQ
      dirtyMaxQ :=
        if updt then
          (if s.cmoSets.dirtyEnQ then maxSet s.st2.dirUpdtSetQ s.cmoSets.dirtyMaxQ
           else s.st2.dirUpdtSetQ)
        else s.cmoSets.dirtyMaxQ } := by
  unfold Cache.stepCmoSets
  rw [h.cmoOut hq, h.refillQuiet.writeDir]
  cases hu : s.st2.dirUpdtQ.updt && s.st2.dirUpdtQ.dirty <;> simp [Cmo.default]

theorem vacate_look : (s.vacate.look k).Calm :=
  ⟨h.normal, h.cmo, h.fifo, h.uc, h.err, h.fence⟩

end Calm

/-! ## The cycle of the grant -/

theorem pe_withoutCore (h : (s.peIn i).GrantCore c) : s.pe i.withoutCore =
    { s.pe i with
      coreReqReady := false
      st1ReqValid := false
      st0ReqMshrCheck := false
      st0ReqCachedirRead := false
      st0ReqCachedataRead := false
      reqCachedataRead := (s.pe i).st1ReqCachedataRead
      evt := { (s.pe i).evt with stall := false } } :=
  h.withoutCore

theorem cmoIn_withoutCore (h : (s.peIn i).GrantCore c) : s.cmoIn i.withoutCore = s.cmoIn i := by
  unfold cmoIn
  rw [pe_withoutCore h]
  rfl

theorem errIn_withoutCore (h : (s.peIn i).GrantCore c) : s.errIn i.withoutCore = s.errIn i := by
  unfold errIn
  rw [pe_withoutCore h]
  rfl

theorem ucIn_withoutCore (h : (s.peIn i).GrantCore c) : s.ucIn i.withoutCore = s.ucIn i := by
  unfold ucIn
  rw [pe_withoutCore h]
  rfl

theorem missIn_withoutCore (h : (s.peIn i).GrantCore c) : s.missIn i.withoutCore =
    { s.missIn i with check := false, checkSet := (s.missIn i).checkSet } := by
  unfold missIn
  rw [pe_withoutCore h]
  rfl

theorem refill_withoutCore (h : (s.peIn i).GrantCore c) :
    s.refill i.withoutCore = s.refill i := by
  unfold refill
  rw [missIn_withoutCore h]
  rfl

theorem memIn_withoutCore (h : (s.peIn i).GrantCore c) : s.memIn i.withoutCore =
    { s.memIn i with
      dirMatch := false
      dirInvalCheck := (s.memIn i).dirInvalCheck
      dataReqRead := (s.pe i).st1ReqCachedataRead } := by
  unfold memIn cmoOut errOut
  rw [pe_withoutCore h, cmoIn_withoutCore h, errIn_withoutCore h, refill_withoutCore h]
  rfl

theorem rtabIn_withoutCore (h : (s.peIn i).GrantCore c) : s.rtabIn i.withoutCore = s.rtabIn i := by
  unfold rtabIn
  rw [pe_withoutCore h, refill_withoutCore h]
  rfl

theorem wbufIn_withoutCore (h : (s.peIn i).GrantCore c) : s.wbufIn i.withoutCore = s.wbufIn i := by
  unfold wbufIn cmoOut
  rw [pe_withoutCore h, cmoIn_withoutCore h, ucIn_withoutCore h]
  rfl

theorem st1Rsp_withoutCore (h : (s.peIn i).GrantCore c) :
    s.st1Rsp i.withoutCore = s.st1Rsp i := by
  unfold st1Rsp
  rw [pe_withoutCore h]
  rfl

/-- Without the request of the core the state is the same, but for stage 1 and the registers of
the lookups. -/
theorem step_withoutCore (h : (s.peIn i).GrantCore c) (hc : s.Calm) :
    (s.step i.withoutCore).look l = (s.step i).vacate.look l := by
  have hpe := pe_withoutCore h
  have hst2 : s.st2Busy = false := PeIn.noNop_st2 h.noNop
  simp only [st2Busy, Bool.or_eq_false_iff] at hst2
  refine look_eq ?_ ?_ ?_ ?_ ?_ ?_ ?_ ?_ ?_ ?_ ?_ ?_ ?_
  · show (s.pe i.withoutCore).st1ReqValid = false
    rw [hpe]
  · show (s.stepSt1 i.withoutCore).rtabPopTryPtrQ = (s.stepSt1 i).rtabPopTryPtrQ
    unfold stepSt1
    rw [hpe]
  · show s.stepSt2 i.withoutCore = s.stepSt2 i
    unfold stepSt2
    rw [hpe]
    rfl
  · show s.stepCmoSets i.withoutCore = s.stepCmoSets i
    unfold stepCmoSets cmoOut
    rw [refill_withoutCore h, cmoIn_withoutCore h]
  · show (s.mem.step (s.memIn i.withoutCore)).look l = (s.mem.step (s.memIn i)).look l
    rw [memIn_withoutCore h]
    exact MemCtrl.step_ports (normal_iff.1 hc.normal).1
      (hc.dirFree (asksNothing_of_grant h) hst2.2) _ _ _
  · show (s.miss.step (s.missIn i.withoutCore)).look l = (s.miss.step (s.missIn i)).look l
    rw [missIn_withoutCore h]
    exact MissHandler.step_check hst2.1.1 _ _
  · show (if c.wtEn then s.wbuf.step (s.wbufIn i.withoutCore) else s.wbuf) =
      if c.wtEn then s.wbuf.step (s.wbufIn i) else s.wbuf
    rw [wbufIn_withoutCore h]
  · rfl
  · show s.uc.step (s.ucIn i.withoutCore) = s.uc.step (s.ucIn i)
    rw [ucIn_withoutCore h]
  · show s.cmo.step (s.cmoIn i.withoutCore) = s.cmo.step (s.cmoIn i)
    rw [cmoIn_withoutCore h]
  · show s.err.step (s.errIn i.withoutCore) = s.err.step (s.errIn i)
    rw [errIn_withoutCore h]
  · show s.scrub.step ⟨(s.pe i.withoutCore).scrubReqReady, _, _, _⟩ =
      s.scrub.step ⟨(s.pe i).scrubReqReady, _, _, _⟩
    rw [hpe]
    rfl
  · show s.rtab.step (s.rtabIn i.withoutCore) = s.rtab.step (s.rtabIn i)
    rw [rtabIn_withoutCore h]

/-! ## The cycle of the abort -/

/-- The request in stage 1 is aborted. -/
structure Aborts (s : Cache c) (i : CacheIn c) : Prop where
  valid : s.st1.reqValidQ = true
  fromRtab : s.st1.reqQ.fromRtab = false
  physIndexed : s.st1.reqQ.req.physIndexed = false
  abort : i.coreReqAbort = true

/-- A store in stage 1 takes the reservation away. -/
def snoops (s : Cache c) (i : CacheIn c) : Bool :=
  (s.ucIn i).lrscSnoop && s.uc.lrscSnoopHit (s.ucIn i)

section

variable (h : s.Calm)
include h

theorem Calm.refillCoreRsp_look : (s.vacate.look k).refillCoreRsp = s.refillCoreRsp := by
  have hf : (s.miss.look k).refillFsmQ = .idle := h.refillIdle
  have hnone : s.miss.refillCoreRsp = none := by
    simp [MissHandler.refillCoreRsp, MissHandler.refillLane, h.refillIdle,
      MissHandler.refillDefault]
  have hnone' : (s.miss.look k).refillCoreRsp = none := by
    simp [MissHandler.refillCoreRsp, MissHandler.refillLane, hf, MissHandler.refillDefault]
  show (s.miss.look k).coreRspOut = s.miss.coreRspOut
  unfold MissHandler.coreRspOut
  rw [hnone, hnone']
  rfl

/-- What the flush controller is given, the data of the RAM apart. -/
theorem Calm.flushIn_look : (s.vacate.look k).flushIn i =
    { s.flushIn i with readData := ((s.vacate.look k).flushIn i).readData } := by
  unfold flushIn
  rw [h.cmoFlushAlloc, h.vacate_look.cmoFlushAlloc]
  rfl

theorem Calm.flushRead_look : (s.vacate.look k).flushRead i = s.flushRead i := by
  unfold flushRead
  rw [h.flushIn_look]
  rfl

theorem Calm.flushStep_look : (if c.wbEn then s.flush.step (s.flushIn i) else s.flush) =
    if c.wbEn then s.flush.step ((s.vacate.look k).flushIn i) else s.flush := by
  cases hwb : c.wbEn with
  | false => rfl
  | true =>
    have hb : s.flush.busy = false := by simpa [flushBusy, hwb] using (normal_iff.1 h.normal).2.2
    rw [h.flushIn_look]
    exact if_congr Iff.rfl (Flush.step_of_idle hb _).symm rfl

theorem Calm.vacant_agrees :
    PeAgrees ((s.vacate.look k).peIn i) .idle ((s.vacate.look k).pe i) :=
  hpdcacheCtrlPe_agrees_idle h.vacate_look.normal rfl

theorem Calm.vacant_asksNothing : (s.vacate.look k).AsksNothing i :=
  asksNothing h.vacant_agrees rfl

theorem Calm.vacant_quiet : ((s.vacate.look k).pe i).St1Quiet :=
  hpdcacheCtrlPe_st1Quiet h.vacate_look.normal rfl

variable (ha : s.Aborts i)
include ha

theorem pe_aborts :
    s.pe i =
      { (s.vacate.look k).pe i with
        refillReqReady := false
        rtabCheck := !(s.peIn i).st1Fence
        st1RspValid := (s.peIn i).st1ReqNeedRsp
        st1RspAborted := true
        st1RtabDeps := { pendTrans := (s.peIn i).st1Fence } } := by
  have hin : (s.vacate.look k).peIn i = (s.peIn i).withSt1 ((s.vacate.look k).peIn i) := by
    have hrsp := h.refillCoreRsp_look (k := k)
    have hbusy : (s.vacate.look k).cmoBusy = s.cmoBusy := by
      unfold cmoBusy handlerRspReady
      rw [hrsp]
      rfl
    simp only [peIn, PeIn.withSt1, hrsp, hbusy]
    rfl
  have hv : (s.peIn i).st1ReqValid = true := ha.valid
  have hn : (s.peIn i).normal = true := h.normal
  have hab : (s.peIn i).st1ReqAbort = true := by
    simp [peIn, st1ReqAbort, ha.abort, ha.physIndexed]
  have hr : (s.peIn i).st1ReqRtab = false := by
    simp [peIn, st1Req, ha.fromRtab]
  have hj : ((s.vacate.look k).peIn i).st1ReqValid = false := rfl
  have hpe := hpdcacheCtrlPe_aborted (c := c) hn hv hab hr hj
  rw [← hin] at hpe
  exact hpe

theorem quiet_of_aborts : (s.pe i).St1Quiet := by
  have hquiet := h.vacant_quiet (i := i) (k := s.lookup)
  rw [pe_aborts (k := s.lookup) h ha]
  exact ⟨hquiet.wbufWrite, hquiet.wbufReadFlushHit, hquiet.dataWrite, hquiet.updtSelVictim,
    hquiet.selVictim⟩

theorem asksNothing_of_aborts : s.AsksNothing i := by
  have hpe := pe_aborts (k := s.lookup) h ha
  have hq := h.vacant_asksNothing (i := i) (k := s.lookup)
  refine ⟨?_, ?_, ?_, ?_, ?_, ?_⟩
  · show (s.pe i).ucReqValid = false
    rw [hpe]
    exact hq.uc
  · show (s.pe i).cmoReqValid = false
    rw [hpe]
    exact hq.cmo
  · show (s.pe i).st1Err = false
    rw [hpe]
    exact hq.err
  · show (s.pe i).st1RtabAlloc = false
    rw [hpe]
    exact hq.alloc
  · show (s.pe i).st1RtabAllocAndLink = false
    rw [hpe]
    exact hq.link
  · show (s.pe i).st1RtabRback = false
    rw [hpe]
    exact hq.rback

theorem stepSt2_aborts : s.stepSt2 i = (s.vacate.look k).stepSt2 i := by
  have hagrees := h.vacant_agrees (i := i) (k := k)
  have hm : ((s.vacate.look k).pe i).st2MshrAlloc.alloc = false := by
    rw [hagrees.mshrAlloc]
    rfl
  have hf : ((s.vacate.look k).pe i).st2FlushAlloc = false := hagrees.flushAlloc
  have hd : ((s.vacate.look k).pe i).st2DirUpdt.updt = false := by
    rw [hagrees.dirUpdt]
    rfl
  unfold stepSt2
  rw [pe_aborts (k := k) h ha]
  simp only [hm, hf, hd, Bool.false_eq_true, if_false]
  rfl

/-- What the RAMs are given, but for the fields of the request and the line of an invalidation that
waits for the pipeline. -/
theorem memIn_aborts : ((s.vacate.look k).memIn i).bare =
    { (s.memIn i).bare with
      dirMatch := (s.memIn i).bare.dirMatch
      dirInvalCheck := ((s.vacate.look k).refill i).invalCheckDir
      dataReqRead := (s.memIn i).bare.dataReqRead } := by
  have hq := asksNothing_of_aborts h ha
  have hqt := h.vacant_asksNothing (i := i) (k := k)
  have ht := h.vacate_look (k := k)
  have hr := h.refillQuiet (i := i)
  have hrt := ht.refillQuiet (i := i)
  unfold memIn
  rw [h.cmoOut hq, ht.cmoOut hqt, h.errOut hq, ht.errOut hqt, hr.writeDir, hrt.writeDir,
    hr.writeData, hrt.writeData, hr.invalWriteDir, hrt.invalWriteDir, hr.updtSelVictim,
    hrt.updtSelVictim, hr.way, hrt.way, h.flushRead_look, pe_aborts (k := k) h ha]
  rfl

theorem memStep_aborts : (s.mem.step (s.memIn i)).look l =
    ((s.vacate.look k).mem.step ((s.vacate.look k).memIn i)).look l := by
  have hpe := pe_aborts (k := k) h ha
  have hunreq := h.vacate_look.unrequested (h.vacant_quiet (i := i) (k := k))
  have hlook : (((s.vacate.look k).mem.step ((s.vacate.look k).memIn i)).look l) =
      (s.mem.step ((s.vacate.look k).memIn i)).look l := MemCtrl.step_look hunreq
  rw [hlook, ← MemCtrl.step_bare (h.unrequested (quiet_of_aborts h ha)),
    ← MemCtrl.step_bare hunreq, memIn_aborts h ha]
  have hcheck : (s.memIn i).bare.dirInvalCheck = false := by
    refine h.invalCheckDir ?_
    rw [hpe]
  cases hinval : ((s.vacate.look k).refill i).invalCheckDir with
  | false => rw [← hcheck]
  | true =>
    have hready : ((s.vacate.look k).pe i).refillReqReady = true := by
      by_contra hn
      rw [h.vacate_look.invalCheckDir (by simpa using hn)] at hinval
      contradiction
    -- the refill gets the pipeline when stage 2 does not update the directory
    have hd : s.st2.dirUpdtQ.updt = false := (refillReqReady_iff.1 hready).not_dir
    have hfree : (s.memIn i).bare.DirFree := { h.dirFree (asksNothing_of_aborts h ha) hd with }
    exact (MemCtrl.step_ports (normal_iff.1 h.normal).1 hfree _ _ _).symm

theorem missStep_aborts : (s.miss.step (s.missIn i)).look l =
    ((s.miss.look k).step
      { (s.vacate.look k).missIn i with refillReqReady := false }).look l := by
  have hin : { (s.vacate.look k).missIn i with refillReqReady := false } =
      { s.missIn i with invalHit := ((s.vacate.look k).missIn i).invalHit } := by
    unfold missIn
    rw [pe_aborts (k := k) h ha]
    rfl
  have hf : (s.miss.look k).refillFsmQ = .idle := h.refillIdle
  rw [hin, MissHandler.step_invalHit hf, MissHandler.step_look h.refillIdle]

theorem wbufStep_aborts :
    s.wbuf.step (s.wbufIn i) = s.wbuf.step ((s.vacate.look k).wbufIn i) := by
  have hpe := pe_aborts (k := k) h ha
  have hq := asksNothing_of_aborts h ha
  have hqt := h.vacant_asksNothing (i := i) (k := k)
  have hquiet := quiet_of_aborts h ha
  have huc : s.uc.wbufFlushAll (s.ucIn i) = false := by simp [Uncached.wbufFlushAll, hq.uc]
  have huct : s.uc.wbufFlushAll ((s.vacate.look k).ucIn i) = false := by
    simp [Uncached.wbufFlushAll, hqt.uc]
  have hin : (s.vacate.look k).wbufIn i =
      { s.wbufIn i with
        nline := ((s.vacate.look k).wbufIn i).nline
        offset := ((s.vacate.look k).wbufIn i).offset
        writeData := ((s.vacate.look k).wbufIn i).writeData
        writeBe := ((s.vacate.look k).wbufIn i).writeBe } := by
    unfold wbufIn
    rw [h.cmoOut hq, h.vacate_look.cmoOut hqt, hpe, huc]
    change WbufIn.mk _ (_ || s.uc.wbufFlushAll ((s.vacate.look k).ucIn i) || _) _ _ _ _ _ _ _ _ _
      _ = _
    rw [huct]
    rfl
  rw [hin]
  exact (Wbuf.step_of_not_write hquiet.wbufWrite hquiet.wbufReadFlushHit _ _ _ _).symm

theorem ucIn_aborts : (s.vacate.look k).ucIn i =
    { s.ucIn i with
      req := ((s.vacate.look k).ucIn i).req
      lrscSnoop := false
      lrscSnoopNline := ((s.vacate.look k).ucIn i).lrscSnoopNline
      lrscSnoopOff := ((s.vacate.look k).ucIn i).lrscSnoopOff
      lrscSnoopSize := ((s.vacate.look k).ucIn i).lrscSnoopSize } := by
  unfold ucIn
  rw [pe_aborts (k := k) h ha]
  rfl

theorem rtabStep_aborts :
    s.rtab.step (s.rtabIn i) = s.rtab.step ((s.vacate.look k).rtabIn i) := by
  have hq := asksNothing_of_aborts h ha
  have hr := h.refillQuiet (i := i)
  have ht := h.vacate_look (k := k)
  have hrt := ht.refillQuiet (i := i)
  have hin : (s.vacate.look k).rtabIn i =
      { s.rtabIn i with
        checkNline := ((s.vacate.look k).rtabIn i).checkNline
        allocReq := ((s.vacate.look k).rtabIn i).allocReq
        allocDeps := ((s.vacate.look k).rtabIn i).allocDeps
        noPendTrans := ((s.vacate.look k).rtabIn i).noPendTrans } := by
    unfold rtabIn
    rw [hr.updtRtab, hrt.updtRtab, hr.way, hrt.way, pe_aborts (k := k) h ha]
    rfl
  rw [hin]
  exact (Rtab.step_of_not_alloc hq.alloc hq.link hq.rback h.fence _ _ _ _).symm

/-- The state is the one that follows a cycle with stage 1 vacant, in which the refill that waits
does not get the pipeline. -/
theorem step_aborts :
    (s.step i).unreserved.look l = ((s.vacate.look k).stepHeld i).unreserved.look l := by
  have hpe := pe_aborts (k := k) h ha
  have hq := asksNothing_of_aborts h ha
  have hqt := h.vacant_asksNothing (i := i) (k := k)
  refine look_eq ?_ ?_ (stepSt2_aborts h ha) ?_ (memStep_aborts h ha) (missStep_aborts h ha) ?_
    h.flushStep_look ?_ ?_ ?_ ?_ (rtabStep_aborts h ha)
  · show (s.pe i).st1ReqValid = ((s.vacate.look k).pe i).st1ReqValid
    rw [hpe]
  · show (if (s.pe i).rtabReqReady then s.rtab.popTryPtr else s.st1.rtabPopTryPtrQ) =
      if ((s.vacate.look k).pe i).rtabReqReady then s.rtab.popTryPtr else s.st1.rtabPopTryPtrQ
    rw [hpe]
  · show s.stepCmoSets i = (s.vacate.look k).stepCmoSets i
    rw [h.stepCmoSets hq, h.vacate_look.stepCmoSets hqt]
    rfl
  · show (if c.wtEn then s.wbuf.step (s.wbufIn i) else s.wbuf) =
      if c.wtEn then s.wbuf.step ((s.vacate.look k).wbufIn i) else s.wbuf
    rw [wbufStep_aborts (k := k) h ha]
  · show (s.uc.step (s.ucIn i)).unreserved =
      (s.uc.step ((s.vacate.look k).ucIn i)).unreserved
    rw [ucIn_aborts h ha]
    exact (Uncached.step_of_not_valid hq.uc _ _ _ _ _).symm
  · show s.cmo.step (s.cmoIn i) = s.cmo.step ((s.vacate.look k).cmoIn i)
    refine Cmo.step_of_idle h.cmo hq.cmo hqt.cmo ?_ rfl
    show (s.pe i).cmoCoreRspReady = ((s.vacate.look k).pe i).cmoCoreRspReady
    rw [hpe]
  · show s.err.step (s.errIn i) = s.err.step ((s.vacate.look k).errIn i)
    rw [ErrFsm.step_of_idle h.err hq.err, ErrFsm.step_of_idle h.err hqt.err]
  · show s.scrub.step ⟨(s.pe i).scrubReqReady, _, _, _⟩ =
      s.scrub.step ⟨((s.vacate.look k).pe i).scrubReqReady, _, _, _⟩
    rw [hpe]

/-- The reservation is left when the request is no store that overlaps it. -/
theorem lrscValidQ_aborts (hs : s.snoops i = false) :
    (s.step i).uc.lrscValidQ = ((s.vacate.look k).step i).uc.lrscValidQ := by
  show (s.uc.step (s.ucIn i)).lrscValidQ = (s.uc.step ((s.vacate.look k).ucIn i)).lrscValidQ
  rw [ucIn_aborts h ha]
  exact (Uncached.lrscValidQ_step_of_not_valid (asksNothing_of_aborts h ha).uc hs _ _ _ _).symm

/-- A request that enters stage 1 after the one that is aborted. -/
theorem reqQ_aborts (hv : (s.step i).st1.reqValidQ = true) :
    (s.step i).st1.reqQ = ((s.vacate.look k).step i).st1.reqQ := by
  have hvt : ((s.vacate.look k).step i).st1.reqValidQ = true := by
    rw [← hv]
    show ((s.vacate.look k).pe i).st1ReqValid = (s.pe i).st1ReqValid
    rw [pe_aborts (k := k) h ha]
  have hreq : (s.step i).st1.reqQ = s.st0Req i := stepSt1_of_normal h.normal hv
  have hreqt : ((s.vacate.look k).step i).st1.reqQ = (s.vacate.look k).st0Req i :=
    stepSt1_of_normal h.vacate_look.normal hvt
  rw [hreq, hreqt]
  rfl

end

/-! ## The responses -/

/-- In every state: what the buffers of the handlers hold. -/
structure Buffers (s : Cache c) : Prop where
  holds : s.cmo.HoldsFlush
  refill : s.miss.coreRspBuf.length ≤ 1
  cmo : s.cmo.rspBuf.length ≤ 1

theorem buffers_reset (s : Cache c) : s.reset.Buffers :=
  ⟨Cmo.holdsFlush_reset _, Nat.zero_le _, Nat.zero_le _⟩

theorem Buffers.step (h : s.Buffers) : (s.step i).Buffers :=
  ⟨h.holds.step, Fifo.length_step_le h.refill, Fifo.length_step_le h.cmo⟩

theorem buffers_run (s : Cache c) (is : List (CacheIn c)) :
    (run Cache.step s.reset is).Buffers :=
  run_invariant (buffers_reset s) fun _ _ => Buffers.step

/-- No handler has a response to give. -/
structure Mute (s : Cache c) : Prop where
  refillIdle : s.miss.refillFsmQ = .idle
  refill : s.miss.coreRspBuf = []
  cmo : s.cmo.rspBuf = []
  uc : s.uc.fsmQ = .idle

theorem Mute.coreRsp (h : s.Mute) : s.coreRsp i =
    if (s.pipeRsp i).validQ then
      some ⟨s.dataReqReadData i, (s.pipeRsp i).sidQ, (s.pipeRsp i).tidQ, (s.pipeRsp i).errorQ,
        (s.pipeRsp i).abortedQ⟩
    else none := by
  have hrefill : s.refillCoreRsp = none := by
    simp [refillCoreRsp, MissHandler.coreRspOut, MissHandler.refillCoreRsp,
      MissHandler.refillLane, h.refillIdle, h.refill, MissHandler.refillDefault, Fifo.rdata]
  have hcmo : s.cmo.coreRspValid = false := by simp [Cmo.coreRspValid, Cmo.rspRok, h.cmo]
  have huc : s.uc.coreRspValid = false := by simp [Uncached.coreRspValid, h.uc]
  simp [Cache.coreRsp, hrefill, hcmo, huc, ucRspValid, cmoRspValid]

theorem Mute.of_eqButLookups {t : Cache c} (h : s.Mute)
    (he : s.unreserved.EqButLookups t.unreserved) : t.Mute := by
  have hl := he s.lookup
  exact
    { refillIdle := (congrArg (·.miss.refillFsmQ) hl).symm.trans h.refillIdle
      refill := (congrArg (·.miss.coreRspBuf) hl).symm.trans h.refill
      cmo := (congrArg (·.cmo.rspBuf) hl).symm.trans h.cmo
      uc := (congrArg (·.uc.fsmQ) hl).symm.trans h.uc }

/-- No handler has a response to give after a cycle in which those there are were taken. -/
theorem Calm.mute_step (h : s.Calm) (hb : s.Buffers) (hq : s.AsksNothing i)
    (hcmo : s.cmo.rspBuf = [] ∨ s.cmo.rspR (s.cmoIn i).coreRspReady = true)
    (hr : (s.pe i).refillReqReady = false) : (s.step i).Mute where
  refillIdle := by
    have hready : (s.missIn i).refillReqReady = false := hr
    have hbusy := MissHandler.refillBusy_step (normal_iff.1 h.normal).2.1 hready
    show (s.miss.step (s.missIn i)).refillFsmQ = .idle
    simpa [MissHandler.refillBusy] using hbusy
  refill := by
    show (s.miss.step (s.missIn i)).coreRspBuf = []
    rw [MissHandler.step_of_idle h.refillIdle]
    exact Fifo.step_none_of_length_le hb.refill
  cmo := by
    have hw : (s.cmoOut i).rspW = false := by
      rw [h.cmoOut hq]
      rfl
    have hstep : (s.step i).cmo.rspBuf =
        Fifo.step 1 false s.cmo.rspBuf none (s.cmo.rspR (s.cmoIn i).coreRspReady) := by
      show Fifo.step 1 false s.cmo.rspBuf (if (s.cmoOut i).rspW then _ else none) _ = _
      rw [hw]
      rfl
    rw [hstep]
    obtain hnil | hrsp := hcmo
    · rw [hnil, Fifo.step_nil_none]
    · rw [hrsp]
      exact Fifo.step_none_of_length_le hb.cmo
  uc := by
    show s.uc.fsmD (s.ucIn i) = .idle
    simp [Uncached.fsmD, h.uc, Uncached.idleD, hq.uc]

/-! ## Atomicity -/

/-- The response to a request that is aborted. -/
def abortRsp (i : CacheIn c) (data : Nat → Byte) : Option Rsp :=
  if i.coreReq.needRsp then some ⟨data, i.coreReq.sid, i.coreReq.tid, false, true⟩ else none

/-- An aborted request leaves nothing behind: `s` is the state in which it is granted, with the
inputs `i₀`, and it is aborted in the next cycle, with `i₁`. Without it the cache goes through
`s.step i₀.withoutCore`. -/
structure AbortAtomic (s : Cache c) (i₀ i₁ i₂ : CacheIn c) : Prop where
  -- the cycle of the grant
  granted : (s.step i₀.withoutCore).EqButLookups (s.step i₀).vacate
  outGranted : s.out i₀ = { s.out i₀.withoutCore with coreReqReady := true }
  -- the cycle of the abort
  state : ((s.step i₀).step i₁).unreserved.EqButLookups
    ((s.step i₀.withoutCore).stepHeld i₁).unreserved
  reservation : (s.step i₀).snoops i₁ = false →
    ((s.step i₀).step i₁).uc.lrscValidQ = ((s.step i₀.withoutCore).step i₁).uc.lrscValidQ
  refill : (s.step i₀.withoutCore).miss.refillReqValid = false →
    (s.step i₀.withoutCore).stepHeld i₁ = (s.step i₀.withoutCore).step i₁
  next : ((s.step i₀).step i₁).st1.reqValidQ = true →
    ((s.step i₀).step i₁).st1.reqQ = ((s.step i₀.withoutCore).step i₁).st1.reqQ
  evt : ((s.step i₀).pe i₁).evt = ((s.step i₀.withoutCore).pe i₁).evt
  -- the response comes with the abort, or one cycle later
  out : c.lowLatency = true → (s.step i₀.withoutCore).coreRsp i₁ = none ∧
    ∃ data, (s.step i₀).out i₁ =
      { (s.step i₀.withoutCore).out i₁ with coreRsp := abortRsp i₀ data }
  outLate : c.lowLatency = false → (s.step i₀).out i₁ = (s.step i₀.withoutCore).out i₁ ∧
    ((s.step i₀.withoutCore).stepHeld i₁).coreRsp i₂ = none ∧
    ∃ data, ((s.step i₀).step i₁).coreRsp i₂ = abortRsp i₀ data

section

variable {i₀ i₁ i₂ : CacheIn c} (h : (s.peIn i₀).GrantCore c)
include h

theorem st1_of_grant : (s.step i₀).st1.reqValidQ = true ∧
    (s.step i₀).st1.reqQ = ⟨coreSt0Req i₀, false, false, false⟩ := by
  have hvalid : (s.stepSt1 i₀).reqValidQ = true := by
    refine (hpdcacheCtrlPe_st1ReqValid h.normal).trans ?_
    rw [coreReqReady_iff.2 h, Bool.true_or]
  have hpop : s.rtab.popTryValid = false := h.not_rtab
  have hscrub : s.scrub.reqValid = false := h.not_scrub
  refine ⟨hvalid, ?_⟩
  show (s.stepSt1 i₀).reqQ = _
  rw [stepSt1_of_normal h.normal hvalid]
  simp [st0Req, hpop, hscrub]

theorem aborts_of_grant (hp : i₀.coreReq.physIndexed = false) (ha : i₁.coreReqAbort = true) :
    (s.step i₀).Aborts i₁ := by
  obtain ⟨hv, hq⟩ := st1_of_grant h
  exact
    { valid := hv
      fromRtab := by rw [hq]
      physIndexed := by
        rw [hq]
        exact hp
      abort := ha }

theorem rspBuf_of_grant :
    s.cmo.rspBuf = [] ∨ s.cmo.rspR (s.cmoIn i₀).coreRspReady = true := by
  have hready : (s.cmoIn i₀).coreRspReady = s.handlerRspReady := by
    show (!s.refillCoreRsp.isSome) = s.refillCoreRsp.isNone
    cases s.refillCoreRsp <;> rfl
  have hbusy : s.cmoBusy = false := h.not_cmo
  simp only [cmoBusy, Cmo.reqReady, Cmo.rspRok, Bool.not_eq_false', Bool.and_eq_true,
    Bool.or_eq_true, Bool.not_not, List.isEmpty_iff] at hbusy
  rw [hready]
  exact hbusy.2

/-- When the data is read in stage 1, a request that is granted does not disturb the read of an
older one. -/
theorem dataReqReadData_withoutCore (hl : c.lowLatency = false) :
    (s.step i₀).dataReqReadData i₁ = (s.step i₀.withoutCore).dataReqReadData i₁ := by
  have hread : (s.memIn i₀).dataReqRead = (s.pe i₀).st1ReqCachedataRead := by
    show (s.pe i₀).reqCachedataRead = _
    unfold pe
    rw [hpdcacheCtrlPe_normal h.normal]
    simp [newRequest, st0CachedataRead, hl]
  have hmem : (s.mem.step (s.memIn i₀.withoutCore)).dataRentry =
      (s.mem.step (s.memIn i₀)).dataRentry := by
    rw [memIn_withoutCore h, ← hread]
    rfl
  unfold dataReqReadData dataReqReadWay
  simp only [hl, Bool.false_eq_true, if_false]
  show (s.mem.step (s.memIn i₀)).readData (s.st1HitWay i₀) =
    (s.mem.step (s.memIn i₀.withoutCore)).readData (s.st1HitWay i₀)
  unfold MemCtrl.readData
  rw [hmem]
  rfl

theorem out_withoutCore : s.out i₀ = { s.out i₀.withoutCore with coreReqReady := true } := by
  have hready : s.coreReqReady i₀ = true := coreReqReady_iff.2 h
  unfold Cache.out Cache.coreRsp pipeRsp ucRspValid cmoRspValid
  rw [hready, st1Rsp_withoutCore h, pe_withoutCore h]
  rfl

/-- The response to the request that is aborted. -/
theorem st1Rsp_of_abort (hc : (s.step i₀).Calm) (ha : (s.step i₀).Aborts i₁) :
    (s.step i₀).st1Rsp i₁ =
      ⟨i₀.coreReq.needRsp, true, false, i₀.coreReq.sid, i₀.coreReq.tid⟩ := by
  have hpe := pe_aborts (k := (s.step i₀).lookup) hc ha
  have hagrees := hc.vacant_agrees (i := i₁) (k := (s.step i₀).lookup)
  have herr : (((s.step i₀).vacate.look (s.step i₀).lookup).pe i₁).st1RspError = false :=
    hagrees.rspError
  have hreq : ((s.step i₀).st1Req i₁).req.needRsp = i₀.coreReq.needRsp ∧
      ((s.step i₀).st1Req i₁).req.sid = i₀.coreReq.sid ∧
      ((s.step i₀).st1Req i₁).req.tid = i₀.coreReq.tid := by
    unfold st1Req
    rw [(st1_of_grant h).2]
    exact ⟨rfl, rfl, rfl⟩
  unfold st1Rsp
  rw [hpe, hreq.2.1, hreq.2.2, ← hreq.1]
  simp only [herr]
  rfl

end

theorem abortAtomic {i₀ i₁ i₂ : CacheIn c} (hb : s.Buffers) (hg : s.coreReqReady i₀ = true)
    (hp : i₀.coreReq.physIndexed = false) (ha : i₁.coreReqAbort = true) :
    s.AbortAtomic i₀ i₁ i₂ := by
  have h : (s.peIn i₀).GrantCore c := coreReqReady_iff.1 hg
  have hc : s.Calm := calm_of_grant h hb.holds
  have hq := asksNothing_of_grant h
  have hst2 : s.st2Busy = false := PeIn.noNop_st2 h.noNop
  simp only [st2Busy, Bool.or_eq_false_iff] at hst2
  have hr : (s.pe i₀).refillReqReady = false := refillReqReady_eq_false (.inl h.not_refill)
  -- the state in which the request is aborted, and the one without it
  have hc₁ : (s.step i₀).Calm := hc.step hq hst2.1.2 hr
  have ha₁ := aborts_of_grant h hp ha
  have hq₁ := asksNothing_of_aborts hc₁ ha₁
  have hrsp := st1Rsp_of_abort h hc₁ ha₁
  obtain ⟨k, ht⟩ : ∃ k, s.step i₀.withoutCore = (s.step i₀).vacate.look k :=
    ⟨_, look_lookup.symm.trans (step_withoutCore h hc)⟩
  have hpe := pe_aborts (k := k) hc₁ ha₁
  have hvalid : (((s.step i₀).vacate.look k).st1Rsp i₁).validQ = false :=
    hc₁.vacant_agrees.rspValid
  have hstate : ((s.step i₀).step i₁).unreserved.EqButLookups
      (((s.step i₀).vacate.look k).stepHeld i₁).unreserved := fun l => step_aborts hc₁ ha₁
  -- no handler answers, in the cycle of the abort nor in the next one
  have hmute : (s.step i₀).Mute := hc.mute_step hb hq (rspBuf_of_grant h) hr
  have hmutet : ((s.step i₀).vacate.look k).Mute :=
    ⟨hmute.refillIdle, hmute.refill, hmute.cmo, hmute.uc⟩
  have hmute₁ : ((s.step i₀).step i₁).Mute :=
    hc₁.mute_step hb.step hq₁ (.inl hmute.cmo) (by rw [hpe])
  have hmutet₁ := hmute₁.of_eqButLookups hstate
  have hready : (s.step i₀).coreReqReady i₁ = ((s.step i₀).vacate.look k).coreReqReady i₁ := by
    show ((s.step i₀).pe i₁).coreReqReady = (((s.step i₀).vacate.look k).pe i₁).coreReqReady
    rw [hpe]
  refine
    { granted := fun l => step_withoutCore h hc
      outGranted := out_withoutCore h
      state := ?_
      reservation := fun hs => ?_
      refill := stepHeld_eq
      next := fun hv => ?_
      evt := ?_
      out := fun hl => ?_
      outLate := fun hl => ?_ }
  · rw [ht]
    exact hstate
  · rw [ht]
    exact lrscValidQ_aborts hc₁ ha₁ hs
  · rw [ht]
    exact reqQ_aborts hc₁ ha₁ hv
  · rw [ht, hpe]
  · have hpipe : (s.step i₀).pipeRsp i₁ = (s.step i₀).st1Rsp i₁ := by simp [pipeRsp, hl]
    have hcore : (s.step i₀).coreRsp i₁ = abortRsp i₀ ((s.step i₀).dataReqReadData i₁) := by
      rw [hmute.coreRsp, hpipe, hrsp]
      rfl
    rw [ht]
    refine ⟨?_, (s.step i₀).dataReqReadData i₁, ?_⟩
    · rw [hmutet.coreRsp, if_neg]
      simp [pipeRsp, hl, hvalid]
    · unfold Cache.out
      rw [hcore, hready]
      rfl
  · have hdata : (s.step i₀).dataReqReadData i₁ = (s.step i₀.withoutCore).dataReqReadData i₁ :=
      dataReqReadData_withoutCore h hl
    have hpipe : (s.step i₀).pipeRsp i₁ = (s.step i₀.withoutCore).pipeRsp i₁ := by
      simp only [pipeRsp, hl, Bool.false_eq_true, if_false]
      exact (st1Rsp_withoutCore h).symm
    rw [ht] at hdata hpipe ⊢
    have hcore : (s.step i₀).coreRsp i₁ = ((s.step i₀).vacate.look k).coreRsp i₁ := by
      rw [hmute.coreRsp, hmutet.coreRsp, hdata, hpipe]
    have hpipe₁ : ((s.step i₀).step i₁).pipeRsp i₂ = (s.step i₀).st1Rsp i₁ := by
      simp only [pipeRsp, hl, Bool.false_eq_true, if_false]
      rfl
    refine ⟨?_, ?_, ((s.step i₀).step i₁).dataReqReadData i₂, ?_⟩
    · unfold Cache.out
      rw [hcore, hready]
      rfl
    · rw [hmutet₁.coreRsp, if_neg]
      simp only [pipeRsp, hl, Bool.false_eq_true, if_false]
      exact Bool.eq_false_iff.1 hvalid
    · rw [hmute₁.coreRsp, hpipe₁, hrsp]
      rfl

/-- In every state reached by a run, a virtually indexed request that is granted and aborted in the
next cycle leaves nothing behind. -/
theorem abort_run (s : Cache c) (is : List (CacheIn c)) (i₀ i₁ i₂ : CacheIn c)
    (hg : (run Cache.step s.reset is).coreReqReady i₀ = true)
    (hp : i₀.coreReq.physIndexed = false) (ha : i₁.coreReqAbort = true) :
    (run Cache.step s.reset is).AbortAtomic i₀ i₁ i₂ :=
  abortAtomic (buffers_run s is) hg hp ha

end Cache

/-! ## What an aborted request leaves behind -/

/-- The core aborts the request of the previous cycle. -/
def CacheIn.abort (c : Cfg) : CacheIn c :=
  { CacheIn.idle c with coreReqAbort := true, coreReqTag := 1 }

/-- A load has missed, and its line is on the way. -/
def lineMissed : Cache lowLatencyCfg :=
  run Cache.step (Cache.blank _).reset
    [.idle _, .idle _, .ask (.access .load 1 false), .idle _, .idle _, .idle _]

/-- The line comes with another load. -/
def lineWithLoad : CacheIn lowLatencyCfg :=
  { CacheIn.refill with coreReqValid := true, coreReq := (Req.access .load 2 false).virt }

/-- A load-reserved has succeeded. -/
def lineReserved : Cache lowLatencyCfg :=
  run Cache.step (Cache.blank _).reset
    [.idle _, .idle _, .ask (.access .amoLr 1 false), .idle _, .idle _, .ucAnswer _, .idle _]

/-- A store to the line that is reserved. -/
def storeReserved : CacheIn lowLatencyCfg := .ask (Req.access .store 1 false).virt

/-- The aborted load delays the refill of the line, whose entry is left in the MSHR, and the aborted
store takes the reservation away. -/
theorem abort_not_atomic :
    (lineMissed.coreReqReady lineWithLoad = true ∧
      ¬ ((lineMissed.step lineWithLoad).step (.abort _)).EqButLookups
        ((lineMissed.step lineWithLoad.withoutCore).step (.abort _))) ∧
    lineReserved.coreReqReady storeReserved = true ∧
      ¬ ((lineReserved.step storeReserved).step (.abort _)).EqButLookups
        ((lineReserved.step storeReserved.withoutCore).step (.abort _)) := by
  refine ⟨⟨by decide +kernel, fun h => ?_⟩, by decide +kernel, fun h => ?_⟩
  · have hheld : any (fun set => any
        (((lineMissed.step lineWithLoad).step (.abort _)).miss.mshr.validQ set)) = true := by
      decide +kernel
    have hfree : any (fun set => any
        (((lineMissed.step lineWithLoad.withoutCore).step (.abort _)).miss.mshr.validQ set)) =
        false := by decide +kernel
    rw [h.validQ, hfree] at hheld
    contradiction
  · have hlost : ((lineReserved.step storeReserved).step (.abort _)).uc.lrscValidQ = false := by
      decide +kernel
    have hkept : ((lineReserved.step storeReserved.withoutCore).step (.abort _)).uc.lrscValidQ =
        true := by decide +kernel
    rw [h.lrscValidQ, hkept] at hlost
    contradiction

theorem abort_run_lineMissed : lineMissed.AbortAtomic lineWithLoad (.abort _) (.idle _) :=
  Cache.abort_run (Cache.blank _) _ lineWithLoad _ _ (by decide +kernel) rfl rfl

end Hpdcache
