import Hpdcache.CtrlPe

/-!
# The decision taken in stage 1

The protocol engine says what becomes of the request in stage 1 through some thirty outputs. They
all follow from one choice: `decision` is the tree of conditions of the engine with, at each leaf,
a name for what is done there, and the tables below it give the outputs of each leaf.

* `Decision` — the leaves of the tree.
* `Agrees` — a valuation of the outputs is the one that the tables give.
* `hpdcacheCtrlPe_agrees` — in normal operation the outputs of the engine are those of the tables.
-/

namespace Hpdcache

variable {c : Cfg} {i : PeIn} {op : ReqOp}

/-- What is done with the request in stage 1. -/
inductive Decision
  /-- There is no request. -/
  | idle
  | aborted
  | error
  /-- Linked behind an older request to the same line. -/
  | link
  | cmo
  /-- Put on hold with no other effect. -/
  | hold (d : RtabDeps)
  | eccAnswer
  | eccHold
  /-- Uncacheable: sent, sent with the invalidation of the clean copy, held for a flush. -/
  | ucSend
  | ucSendInval
  | ucFlush
  /-- AMO: sent on a miss, sent on a clean hit, held for a flush. -/
  | amoSend
  | amoSendHit
  | amoFlush
  | loadMiss
  /-- Answered; the line changes to write-through (and is flushed when dirty) or to write-back. -/
  | loadHit
  | loadHitToWt
  | loadHitToWb
  | storeMiss
  /-- The coalescing buffer is full: the miss is sent and the store is held. -/
  | storeMissHold
  | storeMissWt
  /-- Written in the data RAM; the line becomes dirty or was dirty already. -/
  | storeHitToDirty
  | storeHitDirty
  /-- The dirty line is flushed and becomes write-through; the store is held. -/
  | storeFlush
  | storeHitWt
  deriving DecidableEq, Repr

/-! ## The tree -/

def decisionUncacheable (i : PeIn) : Decision :=
  if !i.st1NoPendTrans && !i.st1ReqRtab then .hold {}
  else if !i.cachedirHit then .ucSend
  else if i.st1DirHitDirty then
    if !i.st1FlushAllocReady then .hold { flushNotReady := true } else .ucFlush
  else if i.st1DirHitFetch then .hold { dirFetch := true }
  else .ucSendInval

def decisionAmo (i : PeIn) : Decision :=
  if !i.st1NoPendTrans && !i.st1ReqRtab then .hold {}
  else if !i.cachedirHit then .amoSend
  else if i.st1DirHitDirty then .amoFlush
  else .amoSendHit

def decisionLoadHit (i : PeIn) : Decision :=
  if i.st1ReqWrWt && i.st1DirHitWback && i.st1DirHitDirty && !i.st1FlushAllocReady then
    .hold { flushNotReady := true }
  else if i.st1DirHitFetch then .loadHit
  else if i.st1ReqWrWt && i.st1DirHitWback then .loadHitToWt
  else if i.st1ReqWrWb && !i.st1DirHitWback then .loadHitToWb
  else .loadHit

def decisionLoadMiss (i : PeIn) : Decision :=
  match loadMissDeps i with
  | some d => .hold d
  | none => .loadMiss

def decisionLoad (i : PeIn) : Decision :=
  if !i.cachedirHit then decisionLoadMiss i else decisionLoadHit i

def decisionStoreMissWb (i : PeIn) : Decision :=
  match storeMissWbDeps i with
  | some d => .hold d
  | none => if i.st1MshrCbufFull then .storeMissHold else .storeMiss

def decisionStoreMissWt (i : PeIn) : Decision :=
  if !i.wbufWriteReady then .hold { wbufNotReady := true } else .storeMissWt

def decisionStoreHitWb (i : PeIn) : Decision :=
  if i.wbufReadHit then .hold { wbufHit := true }
  else if !i.st1DirHitWback || !i.st1DirHitDirty then .storeHitToDirty
  else .storeHitDirty

def decisionStoreHitWt (i : PeIn) : Decision :=
  if i.st1DirHitDirty && !i.st1FlushAllocReady then .hold { flushNotReady := true }
  else if i.st1DirHitDirty then .storeFlush
  else if !i.wbufWriteReady then .hold { wbufNotReady := true }
  else .storeHitWt

def decisionStore (i : PeIn) : Decision :=
  if i.st1MshrHit then .hold { mshrHit := true }
  else if i.st1FlushCheckHit then .hold { flushHit := true }
  else if !i.cachedirHit then
    if i.st1ReqWrWb || (i.st1ReqWrAuto && i.cfgDefaultWb) then decisionStoreMissWb i
    else decisionStoreMissWt i
  else if i.st1DirHitFetch then .hold { dirFetch := true }
  else if i.st1ReqWrWb || (i.st1ReqWrAuto && i.st1DirHitWback) then decisionStoreHitWb i
  else decisionStoreHitWt i

/-- The errors come before the operation, and exclude it. -/
def decisionCacheable (c : Cfg) (i : PeIn) : Decision :=
  if c.eccEn && (i.st1DirErrUnc || i.st1DatErrUncDirty) then
    if c.wbEn then .eccAnswer else .eccHold
  else if c.eccEn && (i.st1DirErrCor || i.st1DatErrCor || i.st1DatErrUnc) then .eccHold
  else if i.st1ReqIsAmo then decisionAmo i
  else if i.st1ReqIsStore then decisionStore i
  else decisionLoad i

/-- What is done with the request in stage 1. -/
def decision (c : Cfg) (i : PeIn) : Decision :=
  if !i.st1ReqValid then .idle
  else if i.st1ReqAbort && !i.st1ReqRtab then .aborted
  else if i.st1ReqIsError then .error
  else if (!i.st1ReqRtab && !i.st1Fence) && i.rtabCheckHit then .link
  else if i.st1ReqIsCmoInval || i.st1ReqIsCmoFlush || i.st1ReqIsCmoFence then .cmo
  else if i.st1ReqIsUncacheable then decisionUncacheable i
  else decisionCacheable c i

/-! ## The tables -/

namespace Decision

/-- The request is put on hold, by an allocation or by a rollback. -/
def holds : Decision → Bool
  | hold _ | eccHold | ucFlush | amoFlush | storeMissHold | storeFlush => true
  | _ => false

/-- The dependencies of a request put on hold, `pend_trans` apart. -/
def deps : Decision → RtabDeps
  | hold d => d
  | storeMissHold => { writeMiss := true }
  | storeFlush => { flushHit := true }
  | _ => {}

/-- The stage-1 response is given, when one is needed. -/
def answers : Decision → Bool
  | aborted | error | eccAnswer | loadHit | loadHitToWt | loadHitToWb | storeMissWt
  | storeHitToDirty | storeHitDirty | storeHitWt => true
  | _ => false

/-- The response carries an error. -/
def answersError : Decision → Bool
  | error | eccAnswer => true
  | _ => false

/-- A miss is allocated for the line of the request. -/
def misses : Decision → Bool
  | loadMiss | storeMiss | storeMissHold => true
  | _ => false

/-- The request is handed to the uncacheable handler. -/
def sendsUc : Decision → Bool
  | ucSend | ucSendInval | amoSend | amoSendHit => true
  | _ => false

/-- The replay-table entry of a replayed request is freed. -/
def commits : Decision → Bool
  | error | ucSend | ucSendInval | amoSend | amoSendHit | loadMiss | loadHit | loadHitToWt
  | loadHitToWb | storeMiss | storeMissWt | storeHitToDirty | storeHitDirty | storeHitWt => true
  | _ => false

/-- The MSHR allocation registered for stage 2. -/
def mshrAlloc (i : PeIn) : Decision → MshrAlloc
  | loadMiss =>
      ⟨true, i.st2MshrAlloc, i.st1ReqNeedRsp, (i.st1ReqWrAuto && i.cfgDefaultWb) || i.st1ReqWrWb,
        false⟩
  | storeMiss => ⟨true, i.st2MshrAlloc, i.st1ReqNeedRsp, true, true⟩
  | storeMissHold => ⟨true, i.st2MshrAlloc, false, true, false⟩
  | _ => ⟨false, i.st2MshrAlloc, false, i.st2MshrAllocWback, i.st2MshrAllocDirty⟩

/-- The directory update registered for stage 2. -/
def dirUpdt (i : PeIn) : Decision → DirUpdt
  | ucFlush => ⟨true, false, false, false, false⟩
  | ucSendInval => ⟨true, false, false, false, i.st2DirUpdt.fetch⟩
  | amoFlush | amoSendHit => ⟨true, true, i.st1DirHitWback, false, i.st1DirHitFetch⟩
  | loadMiss | storeMiss | storeMissHold =>
      ⟨true, i.st1DirVictimValid, i.st1DirVictimWback, false, true⟩
  | loadHitToWt | storeFlush => ⟨true, true, false, false, false⟩
  | loadHitToWb => ⟨true, true, true, false, false⟩
  | storeHitToDirty => ⟨true, true, true, true, false⟩
  | _ => { i.st2DirUpdt with updt := false }

/-- The flush registered for stage 2. -/
def flushAlloc (i : PeIn) : Decision → Bool
  | ucFlush | storeFlush | amoFlush => true
  | loadMiss | storeMiss | storeMissHold => i.st1DirVictimDirty
  | loadHitToWt => i.st1DirHitDirty
  | _ => false

/-- The store enters the write buffer. -/
def writesWbuf : Decision → Bool
  | storeMissWt | storeHitWt => true
  | _ => false

/-- The store is written in the data RAM. -/
def writesData : Decision → Bool
  | storeHitToDirty | storeHitDirty | storeHitWt => true
  | _ => false

/-- The decision always inserts a nop. -/
def nops : Decision → Bool
  | idle | aborted | error | loadHit | storeMissWt | storeHitDirty | storeHitWt => false
  | _ => true

/-- The error recovery is started. -/
def errs : Decision → Bool
  | eccAnswer | eccHold => true
  | _ => false

end Decision

/-! ## Agreement with the engine -/

/-- The stage-1 operation flags are those of a defined operation. -/
structure PeIn.St1Decodes (i : PeIn) (op : ReqOp) : Prop where
  load : i.st1ReqIsLoad = op.isLoad
  store : i.st1ReqIsStore = op.isStore
  amo : i.st1ReqIsAmo = op.isAmo
  cmoInval : i.st1ReqIsCmoInval = op.isCmoInval
  cmoFlush : i.st1ReqIsCmoFlush = op.isCmoFlush
  cmoFence : i.st1ReqIsCmoFence = op.isCmoFence
  cmoPrefetch : i.st1ReqIsCmoPrefetch = op.isCmoPrefetch

/-- The pipeline is neither being initialised nor owned by the refill FSM or the flush
controller. -/
def PeIn.normal (i : PeIn) : Bool :=
  i.cachedirInitReady && !i.refillBusy && !i.flushBusy

/-- The outputs of stage 1 and of the pending stage-2 operations. -/
def stage1 (c : Cfg) (i : PeIn) : PeOut :=
  st1Request c i (st2Pending i (PeOut.default i))

theorem hpdcacheCtrlComb_normal (hn : i.normal = true) :
    hpdcacheCtrlComb c i = newRequest c i (stage1 c i) := by
  simp only [PeIn.normal, Bool.and_eq_true, Bool.not_eq_true'] at hn
  obtain ⟨⟨hinit, hrefill⟩, hflush⟩ := hn
  simp [hpdcacheCtrlComb, stage1, hinit, hrefill, hflush]

/-- Some operation is registered for stage 2. -/
def PeIn.st2Busy (i : PeIn) : Bool :=
  i.st2MshrAlloc || i.st2FlushAlloc || i.st2DirUpdt.updt

/-- The outputs that the request in stage 1 starts from: the pending operations are performed,
and nothing else is registered for stage 2. -/
def st1Start (i : PeIn) (evt : PeEvt) (check : Bool) : PeOut where
  st1ReqValid := i.st1ReqValid
  st2MshrAlloc := ⟨false, i.st2MshrAlloc, false, i.st2MshrAllocWback, i.st2MshrAllocDirty⟩
  st2FlushAlloc := false
  st2DirUpdt := { i.st2DirUpdt with updt := false }
  st2Nop := i.st2Busy
  rtabCheck := check
  evt := evt

theorem st2Pending_default :
    st2Pending i (PeOut.default i) = st1Start i (st2Pending i (PeOut.default i)).evt false := by
  obtain ⟨u, hu⟩ : ∃ u, i.st2DirUpdt = u := ⟨_, rfl⟩
  obtain ⟨updt, valid, wback, dirty, fetch⟩ := u
  cases hm : i.st2MshrAlloc <;> cases hf : i.st2FlushAlloc <;> cases updt <;>
    simp [st2Pending, st2PendingMshr, st2PendingFlush, st2PendingDirUpdt, PeOut.default,
      st1Start, PeIn.st2Busy, hm, hf, hu]

/-- The outputs `o` of stage 1 are those of the decision `d`. -/
structure Agrees (i : PeIn) (d : Decision) (o : PeOut) : Prop where
  alloc : o.st1RtabAllocI = d.holds
  deps : o.st1RtabDeps = d.deps
  link : o.st1RtabAllocAndLink = decide (d = .link)
  commit : o.st1RtabCommit = (d.commits && i.st1ReqRtab)
  rspValid : o.st1RspValid = (d.answers && i.st1ReqNeedRsp)
  rspError : o.st1RspError = (d.answersError && i.st1ReqNeedRsp)
  rspAborted : o.st1RspAborted = decide (d = .aborted)
  ucReq : o.ucReqValid = d.sendsUc
  cmoReq : o.cmoReqValid = decide (d = .cmo)
  mshrAlloc : o.st2MshrAlloc = d.mshrAlloc i
  flushAlloc : o.st2FlushAlloc = d.flushAlloc i
  dirUpdt : o.st2DirUpdt = d.dirUpdt i
  wbufWrite : (o.wbufWriteValid && i.wbufWriteReady) = d.writesWbuf
  dataWrite : o.st1ReqCachedataWriteEnable = d.writesData
  err : o.st1Err = d.errs
  nop : d.nops = true → o.st1Nop = true

/-! ### The bodies of the branches

Each body takes outputs on which nothing was decided yet to the outputs of its decision. -/

section
variable {o : PeOut} (h : Agrees i .idle o)
include h

theorem Agrees.hold (d : RtabDeps) : Agrees i (.hold d) (o.hold d) :=
  { h with alloc := rfl, deps := rfl, nop := fun _ => rfl }

theorem Agrees.sendUc : Agrees i .ucSend (o.sendUc i) :=
  { h with commit := rfl, ucReq := rfl, nop := fun _ => rfl }

theorem Agrees.sendUcInval :
    Agrees i .ucSendInval ((o.sendUc i).dirUpdt false false false o.st2DirUpdt.fetch) :=
  { h with
    commit := rfl, ucReq := rfl, nop := fun _ => rfl
    dirUpdt := by rw [h.dirUpdt]; rfl }

theorem Agrees.flushUc :
    Agrees i .ucFlush
      { (o.hold {}).dirUpdt false false false false with st2FlushAlloc := true } :=
  { h with alloc := rfl, deps := rfl, flushAlloc := rfl, dirUpdt := rfl, nop := fun _ => rfl }

theorem Agrees.allocLoad (hn : o.st1Nop = true) :
    Agrees i .loadMiss ((o.reserveVictim i).allocLoad i) :=
  { h with
    commit := rfl, flushAlloc := rfl, dirUpdt := rfl, nop := fun _ => hn
    mshrAlloc := by
      simp only [PeOut.allocLoad, PeOut.reserveVictim, PeOut.dirUpdt, h.mshrAlloc,
        Decision.mshrAlloc] }

theorem Agrees.allocStore (hn : o.st1Nop = true) :
    Agrees i .storeMiss ((o.reserveVictim i).allocStore i) :=
  { h with
    commit := rfl, flushAlloc := rfl, dirUpdt := rfl, nop := fun _ => hn
    mshrAlloc := by
      simp only [PeOut.allocStore, PeOut.reserveVictim, PeOut.dirUpdt, h.mshrAlloc,
        Decision.mshrAlloc] }

theorem Agrees.allocStoreHold : Agrees i .storeMissHold (o.reserveVictim i).allocStoreHold :=
  { h with
    alloc := rfl, deps := rfl, flushAlloc := rfl, dirUpdt := rfl, nop := fun _ => rfl
    mshrAlloc := by
      simp only [PeOut.allocStoreHold, PeOut.reserveVictim, PeOut.dirUpdt, PeOut.hold,
        h.mshrAlloc, Decision.mshrAlloc] }

theorem Agrees.answerLoad : Agrees i .loadHit (o.answerLoad c i) :=
  { h with commit := rfl, rspValid := rfl, nop := nofun }

/-- Outputs that no decision reads: the nop, the victim selection, the enables of the data RAM and
the eager send of the write buffer. -/
theorem Agrees.aux (nop sel write merge flushHit : Bool) :
    Agrees i .idle
      { o with
        st1Nop := nop
        st1ReqCachedirSelVictim := sel
        st1ReqCachedataWrite := write
        st1ReqCachedataWriteMerge := merge
        wbufReadFlushHit := flushHit } :=
  { h with nop := nofun }

/-- A write request that the write buffer refuses has no effect. -/
theorem Agrees.wbufRefused {v : Bool} (hv : (v && i.wbufWriteReady) = false) :
    Agrees i .idle { o with wbufWriteValid := v } :=
  { h with nop := nofun, wbufWrite := hv }

theorem Agrees.answerStoreMiss (hw : i.wbufWriteReady = true) :
    Agrees i .storeMissWt (PeOut.answerStoreMiss i { o with wbufWriteValid := true }) :=
  { h with
    commit := rfl, rspValid := rfl, nop := nofun
    wbufWrite := by rw [hw]; rfl }

theorem Agrees.answerStoreHitWt (hw : i.wbufWriteReady = true) :
    Agrees i .storeHitWt (PeOut.answerStoreHit i { o with wbufWriteValid := true }) :=
  { h with
    commit := rfl, rspValid := rfl, dataWrite := rfl, nop := nofun
    wbufWrite := by rw [hw]; rfl }

theorem Agrees.answerStoreHit : Agrees i .storeHitDirty (o.answerStoreHit i) :=
  { h with commit := rfl, rspValid := rfl, dataWrite := rfl, nop := nofun }

theorem Agrees.answerStoreHitUpdt :
    Agrees i .storeHitToDirty
      { (o.dirUpdt true true true false).answerStoreHit i with st1Nop := true } :=
  { h with
    commit := rfl, rspValid := rfl, dataWrite := rfl, dirUpdt := rfl, nop := fun _ => rfl }

theorem Agrees.flushStore :
    Agrees i .storeFlush
      { (o.hold { flushHit := true }).dirUpdt true false false false with
        st2FlushAlloc := true } :=
  { h with alloc := rfl, deps := rfl, flushAlloc := rfl, dirUpdt := rfl, nop := fun _ => rfl }

/-! ### The branches -/

theorem Agrees.uncacheable : Agrees i (decisionUncacheable i) (st1Uncacheable i o) := by
  unfold decisionUncacheable st1Uncacheable
  split_ifs
  · exact h.hold {}
  · exact h.sendUc
  · exact h.hold _
  · exact h.flushUc
  · exact h.hold _
  · exact h.sendUcInval

theorem Agrees.amo (ha : i.st1ReqIsAmo = true) : Agrees i (decisionAmo i) (st1Amo i o) := by
  have he : o.st1Err = false := h.err
  have hu : o.ucReqValid = false := h.ucReq
  have hd : o.st1RtabDeps = {} := h.deps
  unfold st1Amo
  rw [if_pos (by rw [ha, he]; rfl)]
  unfold decisionAmo
  by_cases hw : (!i.st1NoPendTrans && !i.st1ReqRtab) = true
  · rw [if_pos hw, if_pos hw, hd]
    exact h.hold {}
  · rw [if_neg hw, if_neg hw]
    have hstart : Agrees i .idle { o with st1Nop := true } := { h with nop := nofun }
    cases i.cachedirHit <;> cases i.st1DirHitDirty
    · exact { hstart with ucReq := rfl, nop := fun _ => rfl, commit := Bool.and_comm .. }
    · exact { hstart with ucReq := rfl, nop := fun _ => rfl, commit := Bool.and_comm .. }
    · exact { hstart with
        ucReq := rfl, dirUpdt := rfl, flushAlloc := rfl, nop := fun _ => rfl
        commit := Bool.and_comm .. }
    · exact { hstart with
        alloc := rfl, dirUpdt := rfl, flushAlloc := rfl, nop := fun _ => rfl
        commit := by simp [PeOut.dirUpdt, hu, Decision.commits] }

theorem Agrees.loadMiss : Agrees i (decisionLoadMiss i) (st1LoadMiss i o) := by
  have haux := h.aux true true o.st1ReqCachedataWrite o.st1ReqCachedataWriteMerge true
  unfold decisionLoadMiss st1LoadMiss
  cases loadMissDeps i with
  | some d => exact haux.hold d
  | none => exact haux.allocLoad rfl

theorem Agrees.loadHit : Agrees i (decisionLoadHit i) (st1LoadHit c i o) := by
  have hans := h.answerLoad (c := c)
  unfold decisionLoadHit st1LoadHit st1LoadHitPolicy
  by_cases hr : (i.st1ReqWrWt && i.st1DirHitWback && i.st1DirHitDirty &&
      !i.st1FlushAllocReady) = true
  · rw [if_pos hr, if_pos hr]
    exact h.hold _
  · rw [if_neg hr, if_neg hr]
    -- the two changes of policy exclude each other on the state of the line
    cases i.st1DirHitFetch <;> cases i.st1DirHitWback <;>
      simp only [Bool.not_true, Bool.not_false, if_true, if_false, Bool.false_eq_true,
        Bool.and_false, Bool.and_true]
    · split_ifs
      · exact { hans with dirUpdt := rfl, nop := fun _ => rfl }
      · exact hans
    · split_ifs
      · exact { hans with dirUpdt := rfl, flushAlloc := rfl, nop := fun _ => rfl }
      · exact hans
    · exact hans
    · exact hans

theorem Agrees.load (hl : (i.st1ReqIsLoad || i.st1ReqIsCmoPrefetch) = true) :
    Agrees i (decisionLoad i) (st1Load c i o) := by
  have he : o.st1Err = false := h.err
  unfold st1Load
  rw [if_pos (by rw [hl, he]; rfl)]
  unfold decisionLoad
  split_ifs
  · exact h.loadMiss
  · exact h.loadHit

theorem Agrees.storeMissWb : Agrees i (decisionStoreMissWb i) (st1StoreMissWb i o) := by
  have haux := h.aux true true o.st1ReqCachedataWrite o.st1ReqCachedataWriteMerge true
  unfold decisionStoreMissWb st1StoreMissWb
  cases storeMissWbDeps i with
  | some d => exact haux.hold d
  | none =>
    dsimp only
    split_ifs
    · exact haux.allocStoreHold
    · exact haux.allocStore rfl

theorem Agrees.storeMissWt : Agrees i (decisionStoreMissWt i) (st1StoreMissWt i o) := by
  unfold decisionStoreMissWt st1StoreMissWt
  cases hw : i.wbufWriteReady with
  | true => exact h.answerStoreMiss hw
  | false => exact (h.wbufRefused (v := true) (by rw [hw]; rfl)).hold _

theorem Agrees.storeHitWb : Agrees i (decisionStoreHitWb i) (st1StoreHitWb i o) := by
  have haux := h.aux o.st1Nop o.st1ReqCachedirSelVictim o.st1ReqCachedataWrite
    o.st1ReqCachedataWriteMerge true
  unfold decisionStoreHitWb st1StoreHitWb
  split_ifs
  · exact haux.hold _
  · exact haux.answerStoreHitUpdt
  · exact haux.answerStoreHit

theorem Agrees.storeHitWt : Agrees i (decisionStoreHitWt i) (st1StoreHitWt i o) := by
  unfold decisionStoreHitWt st1StoreHitWt
  cases i.st1DirHitDirty with
  | true =>
    have hn := h.wbufRefused (v := false) rfl
    dsimp only
    cases i.st1FlushAllocReady with
    | true => exact hn.flushStore
    | false => exact hn.hold _
  | false =>
    cases hw : i.wbufWriteReady with
    | true => exact h.answerStoreHitWt hw
    | false => exact (h.wbufRefused (v := true) (by rw [hw]; rfl)).hold _

theorem Agrees.store (hs : i.st1ReqIsStore = true) :
    Agrees i (decisionStore i) (st1Store c i o) := by
  have he : o.st1Err = false := h.err
  have haux := h.aux (st1StoreNop c i) o.st1ReqCachedirSelVictim true
    (if c.eccEn then i.st1ReqIsPartial else o.st1ReqCachedataWriteMerge) o.wbufReadFlushHit
  unfold st1Store
  rw [if_pos (by rw [hs, he]; rfl)]
  unfold decisionStore
  by_cases hm : i.st1MshrHit = true
  · rw [if_pos hm, if_pos hm]
    exact haux.hold _
  rw [if_neg hm, if_neg hm]
  by_cases hf : i.st1FlushCheckHit = true
  · rw [if_pos hf, if_pos hf]
    exact haux.hold _
  rw [if_neg hf, if_neg hf]
  by_cases hhit : (!i.cachedirHit) = true
  · rw [if_pos hhit, if_pos hhit]
    by_cases hwb : (i.st1ReqWrWb || (i.st1ReqWrAuto && i.cfgDefaultWb)) = true
    · rw [if_pos hwb, if_pos hwb]
      exact haux.storeMissWb
    · rw [if_neg hwb, if_neg hwb]
      exact haux.storeMissWt
  rw [if_neg hhit, if_neg hhit]
  by_cases hfetch : i.st1DirHitFetch = true
  · rw [if_pos hfetch, if_pos hfetch]
    exact haux.hold _
  rw [if_neg hfetch, if_neg hfetch]
  by_cases hwb : (i.st1ReqWrWb || (i.st1ReqWrAuto && i.st1DirHitWback)) = true
  · rw [if_pos hwb, if_pos hwb]
    exact haux.storeHitWb
  · rw [if_neg hwb, if_neg hwb]
    exact haux.storeHitWt

/-- The error overlay gives the outputs of the error, and disables what follows it. -/
theorem Agrees.eccError
    (he : (c.eccEn && (i.st1DirErrUnc || i.st1DatErrUncDirty)) = true ∨
      (c.eccEn && (i.st1DirErrCor || i.st1DatErrCor || i.st1DatErrUnc)) = true) :
    Agrees i (decisionCacheable c i)
      (st1Store c i (st1Load c i (st1Amo i (st1EccError c i o)))) := by
  have hskip : ∀ o' : PeOut, o'.st1Err = true →
      st1Store c i (st1Load c i (st1Amo i o')) = o' := by
    intro o' ho'
    have hamo : st1Amo i o' = o' := by
      unfold st1Amo; rw [if_neg (by rw [ho']; simp)]
    have hload : st1Load c i o' = o' := by
      unfold st1Load; rw [if_neg (by rw [ho']; simp)]
    have hstore : st1Store c i o' = o' := by
      unfold st1Store; rw [if_neg (by rw [ho']; simp)]
    rw [hamo, hload, hstore]
  unfold decisionCacheable st1EccError
  by_cases hu : (c.eccEn && (i.st1DirErrUnc || i.st1DatErrUncDirty)) = true
  · rw [if_pos hu, if_pos hu, hskip _ rfl]
    cases c.wbEn
    · exact { h with alloc := rfl, rspValid := rfl, rspError := rfl, err := rfl, nop := fun _ => rfl }
    · exact { h with alloc := rfl, rspValid := rfl, rspError := rfl, err := rfl, nop := fun _ => rfl }
  · have hc := he.resolve_left hu
    rw [if_neg hu, if_neg hu, if_pos hc, if_pos hc, hskip _ rfl]
    exact { h with alloc := rfl, err := rfl, nop := fun _ => rfl }

theorem Agrees.cacheable (hd : i.St1Decodes op) (hcmo : op.isCmo = false ∨ op.isCmoPrefetch = true) :
    Agrees i (decisionCacheable c i)
      (st1Store c i (st1Load c i (st1Amo i (st1EccError c i o)))) := by
  by_cases hu : (c.eccEn && (i.st1DirErrUnc || i.st1DatErrUncDirty)) = true
  · exact h.eccError (.inl hu)
  by_cases hc : (c.eccEn && (i.st1DirErrCor || i.st1DatErrCor || i.st1DatErrUnc)) = true
  · exact h.eccError (.inr hc)
  unfold decisionCacheable st1EccError
  rw [if_neg hu, if_neg hu, if_neg hc, if_neg hc]
  have hload := hd.load
  have hstore := hd.store
  have hamo := hd.amo
  have hpre := hd.cmoPrefetch
  by_cases ha : i.st1ReqIsAmo = true
  · have hl : st1Load c i (st1Amo i o) = st1Amo i o := by
      unfold st1Load
      rw [if_neg]
      cases op <;> simp_all [ReqOp.isLoad, ReqOp.isAmo, ReqOp.isCmoPrefetch]
    have hs : st1Store c i (st1Amo i o) = st1Amo i o := by
      unfold st1Store
      rw [if_neg]
      cases op <;> simp_all [ReqOp.isStore, ReqOp.isAmo]
    rw [if_pos ha, hl, hs]
    exact h.amo ha
  · have hamo' : st1Amo i o = o := by
      unfold st1Amo; rw [if_neg (by simp [ha])]
    rw [if_neg ha, hamo']
    by_cases hs : i.st1ReqIsStore = true
    · have hl : st1Load c i o = o := by
        unfold st1Load
        rw [if_neg]
        cases op <;> simp_all [ReqOp.isLoad, ReqOp.isStore, ReqOp.isCmoPrefetch]
      rw [if_pos hs, hl]
      exact h.store hs
    · have hs' : st1Store c i (st1Load c i o) = st1Load c i o := by
        unfold st1Store; rw [if_neg (by simp [hs])]
      rw [if_neg hs, hs']
      refine h.load ?_
      cases op <;> simp_all [ReqOp.isLoad, ReqOp.isStore, ReqOp.isAmo, ReqOp.isCmoPrefetch,
        ReqOp.isCmo, ReqOp.isCmoFlush, ReqOp.isCmoFence, ReqOp.isCmoInval]
end

/-! ## The engine agrees with the tables -/

theorem agrees_start (evt : PeEvt) (check : Bool) : Agrees i .idle (st1Start i evt check) where
  alloc := rfl
  deps := rfl
  link := rfl
  commit := rfl
  rspValid := rfl
  rspError := rfl
  rspAborted := rfl
  ucReq := rfl
  cmoReq := rfl
  mshrAlloc := rfl
  flushAlloc := rfl
  dirUpdt := rfl
  wbufWrite := rfl
  dataWrite := rfl
  err := rfl
  nop := nofun

/-- In normal operation the outputs of stage 1 are those of the decision, up to the choice of the
operation of a cacheable request. -/
theorem stage1_agrees_or : Agrees i (decision c i) (stage1 c i) ∨
    (i.st1ReqIsCmoInval || i.st1ReqIsCmoFlush || i.st1ReqIsCmoFence) = false ∧
      decision c i = decisionCacheable c i ∧
      ∃ o, Agrees i .idle o ∧
        stage1 c i = st1Store c i (st1Load c i (st1Amo i (st1EccError c i o))) := by
  unfold stage1 st1Request decision
  rw [st2Pending_default]
  generalize (st2Pending i (PeOut.default i)).evt = evt
  by_cases hv : i.st1ReqValid = true
  swap
  · rw [if_neg hv, if_pos (by simpa using hv)]
    exact .inl (agrees_start evt false)
  have h := agrees_start (i := i) evt (!i.st1ReqRtab && !i.st1Fence)
  rw [if_pos hv, if_neg (by simp [hv])]
  by_cases habort : (i.st1ReqAbort && !i.st1ReqRtab) = true
  · rw [if_pos habort, if_pos habort]
    exact .inl { h with rspValid := rfl, rspAborted := rfl, nop := nofun }
  rw [if_neg habort, if_neg habort]
  by_cases herr : i.st1ReqIsError = true
  · rw [if_pos herr, if_pos herr]
    exact .inl { h with commit := rfl, rspValid := rfl, rspError := rfl, nop := nofun }
  rw [if_neg herr, if_neg herr]
  by_cases hlink : ((!i.st1ReqRtab && !i.st1Fence) && i.rtabCheckHit) = true
  · rw [if_pos hlink, if_pos hlink]
    exact .inl { h with link := rfl, nop := fun _ => rfl }
  rw [if_neg hlink, if_neg hlink]
  by_cases hcmo : (i.st1ReqIsCmoInval || i.st1ReqIsCmoFlush || i.st1ReqIsCmoFence) = true
  · rw [if_pos hcmo, if_pos hcmo]
    exact .inl { h with cmoReq := rfl, nop := fun _ => rfl }
  rw [if_neg hcmo, if_neg hcmo]
  by_cases huc : i.st1ReqIsUncacheable = true
  · rw [if_pos huc, if_pos huc]
    exact .inl h.uncacheable
  rw [if_neg huc, if_neg huc]
  exact .inr ⟨by simpa using hcmo, rfl, _, h, rfl⟩

/-- In normal operation the outputs of stage 1 are those of the decision. -/
theorem stage1_agrees (hd : i.St1Decodes op) : Agrees i (decision c i) (stage1 c i) := by
  obtain h | ⟨hcmo, hdec, o, h, ho⟩ := stage1_agrees_or (c := c) (i := i)
  · exact h
  rw [hdec, ho]
  refine h.cacheable hd ?_
  rw [hd.cmoInval, hd.cmoFlush, hd.cmoFence] at hcmo
  cases op <;> simp_all [ReqOp.isCmo, ReqOp.isCmoInval, ReqOp.isCmoFlush, ReqOp.isCmoFence,
    ReqOp.isCmoPrefetch]

/-- The outputs of the engine in normal operation, where the decision is `d`. -/
structure PeAgrees (i : PeIn) (d : Decision) (o : PeOut) : Prop where
  alloc : o.st1RtabAlloc = (d.holds && !i.st1ReqRtab)
  rback : o.st1RtabRback = (d.holds && i.st1ReqRtab)
  deps : o.st1RtabDeps = { d.deps with pendTrans := i.st1Fence }
  link : o.st1RtabAllocAndLink = decide (d = .link)
  commit : o.st1RtabCommit = (d.commits && i.st1ReqRtab)
  rspValid : o.st1RspValid = (d.answers && i.st1ReqNeedRsp)
  rspError : o.st1RspError = (d.answersError && i.st1ReqNeedRsp)
  rspAborted : o.st1RspAborted = decide (d = .aborted)
  ucReq : o.ucReqValid = d.sendsUc
  cmoReq : o.cmoReqValid = decide (d = .cmo)
  mshrAlloc : o.st2MshrAlloc = d.mshrAlloc i
  flushAlloc : o.st2FlushAlloc = d.flushAlloc i
  dirUpdt : o.st2DirUpdt = d.dirUpdt i
  wbufWrite : (o.wbufWriteValid && i.wbufWriteReady) = d.writesWbuf
  dataWrite : o.st1ReqCachedataWriteEnable = d.writesData
  err : o.st1Err = d.errs

theorem Agrees.pe {d : Decision} (hn : i.normal = true) (h : Agrees i d (stage1 c i)) :
    PeAgrees i d (hpdcacheCtrlPe c i) := by
  unfold hpdcacheCtrlPe
  rw [hpdcacheCtrlComb_normal hn]
  exact
    { h with
      alloc := congrArg (· && !i.st1ReqRtab) h.alloc
      rback := congrArg (· && i.st1ReqRtab) h.alloc
      deps := congrArg (fun d : RtabDeps => { d with pendTrans := i.st1Fence }) h.deps }

theorem hpdcacheCtrlPe_agrees (hn : i.normal = true) (hd : i.St1Decodes op) :
    PeAgrees i (decision c i) (hpdcacheCtrlPe c i) :=
  (stage1_agrees hd).pe hn

/-- Outside of normal operation the stage-2 registers hold, and nothing else is done. -/
theorem hpdcacheCtrlPe_not_normal (hn : i.normal = false) :
    ∃ evt, hpdcacheCtrlPe c i =
      { PeOut.default i with
        st1RtabDeps := { pendTrans := i.st1Fence }
        ucCoreRspReady := !i.refillCoreRspValid
        cmoCoreRspReady := !i.refillCoreRspValid
        evt := evt } := by
  have hcomb : ∃ evt, hpdcacheCtrlComb c i = { PeOut.default i with evt := evt } := by
    unfold hpdcacheCtrlComb
    cases hi : i.cachedirInitReady with
    | false => exact ⟨_, rfl⟩
    | true =>
      cases hr : i.refillBusy with
      | true => exact ⟨_, rfl⟩
      | false =>
        have hf : i.flushBusy = true := by simpa [PeIn.normal, hi, hr] using hn
        rw [hf]
        exact ⟨_, rfl⟩
  obtain ⟨evt, hcomb⟩ := hcomb
  unfold hpdcacheCtrlPe
  rw [hcomb]
  exact ⟨_, rfl⟩

end Hpdcache
