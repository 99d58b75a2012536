import Hpdcache.Cmo
import Hpdcache.CtrlPe
import Hpdcache.Ecc
import Hpdcache.Flush
import Hpdcache.MemCtrl
import Hpdcache.MissHandler
import Hpdcache.Rtab
import Hpdcache.Uncached
import Hpdcache.Wbuf

/-!
# The cache

The controller with its pipeline registers, and the units around it. A state is the content of
every register and RAM; an input is everything that reaches the cache in a cycle from the
requesters, the memory and the configuration. The arbiters of the memory channels are not part of
the state: the readiness of each source is an input, as are the flags of the ECC decoders.

* `Cache.peIn` — what the protocol engine sees of the state and of the inputs.
* `Cache.step` — one cycle.
* `Cache.coreRsp` — the response given to the requesters.
-/

namespace Hpdcache

open Hw

/-! ## State -/

/-- Pipeline stage 1. -/
structure St1 (c : Cfg) where
  reqValidQ : Bool
  reqQ : CtrlReq c
  rtabPopTryPtrQ : Fin c.rtabEntries

/-- Pipeline stage 2: an MSHR allocation, a flush allocation and a directory update. -/
structure St2 (c : Cfg) where
  mshrAllocQ : Bool
  mshrAllocNlineQ : Nline c
  mshrAllocOffQ : Nat
  mshrAllocSidQ : Nat
  mshrAllocTidQ : Nat
  mshrAllocWdataQ : Nat → Byte
  mshrAllocBeQ : Nat → Bool
  mshrAllocNeedRspQ : Bool
  mshrAllocIsPrefetchQ : Bool
  mshrAllocWbackQ : Bool
  mshrAllocDirtyQ : Bool
  mshrAllocVictimWayQ : Bits c.ways
  flushAllocQ : Bool
  flushAllocNlineQ : Nline c
  flushAllocWayQ : Bits c.ways
  dirUpdtQ : DirUpdt
  dirUpdtTagQ : Nat
  dirUpdtSetQ : Fin c.sets
  dirUpdtWayQ : Bits c.ways

/-- The response of stage 1, as registered when the cache is not in low-latency mode. -/
structure St2Rsp where
  validQ : Bool
  abortedQ : Bool
  errorQ : Bool
  sidQ : Nat
  tidQ : Nat

/-- The sets that may hold dirty and valid lines. -/
structure CmoSets (c : Cfg) where
  dirtyEnQ : Bool
  dirtyMinQ : Fin c.sets
  dirtyMaxQ : Fin c.sets
  validEnQ : Bool
  validMinQ : Fin c.sets
  validMaxQ : Fin c.sets

structure Cache (c : Cfg) where
  st1 : St1 c
  st2 : St2 c
  rsp : St2Rsp
  /-- The way of the data read in the previous cycle. -/
  dataReqReadWayQ : Bits c.ways
  cmoSets : CmoSets c
  mem : MemCtrl c
  miss : MissHandler c
  wbuf : Wbuf c
  flush : Flush c
  uc : Uncached c
  cmo : Cmo c
  err : ErrFsm c
  scrub : Scrub c
  rtab : Rtab c

/-- Inputs of a cycle. -/
structure CacheIn (c : Cfg) where
  coreReqValid : Bool
  coreReq : Req c
  coreReqAbort : Bool
  coreReqTag : Nat
  coreReqPma : Pma
  cfgEnable : Bool
  cfgPrefetchUpdtPlru : Bool
  cfgDefaultWb : Bool
  cfgRtabSingleEntry : Bool
  cfgErrorOnCacheableAmo : Bool
  cfgWbuf : WbufCfg
  cfgScrubEnable : Bool
  cfgScrubRestart : Bool
  cfgScrubPeriod : Nat
  wbufFlush : Bool
  dirErrCor : Bits c.ways
  dirErrUnc : Bits c.ways
  datErrCor : Bits c.ways
  datErrUnc : Bits c.ways
  missReqReady : Bool
  missResp : Option (MissResp c)
  wbufReqReady : Bool
  wbufDataReady : Bool
  wbufAck : Option (Fin c.wbufDirEntries)
  flushReqReady : Bool
  flushDataReady : Bool
  flushAck : Option (Fin c.flushEntries)
  ucReadReady : Bool
  ucWriteReady : Bool
  ucWdataReady : Bool
  ucRead : Option UcReadResp
  ucWrite : Option UcWriteResp

namespace Cache

variable {c : Cfg}

/-- Reset from an arbitrary content of the RAMs and of the registers without a reset. -/
def reset (s : Cache c) : Cache c :=
  { s with
    st1 := { s.st1 with reqValidQ := false, rtabPopTryPtrQ := ⟨0, c.rtabEntries_pos⟩ }
    st2 := { s.st2 with
      mshrAllocQ := false, flushAllocQ := false, dirUpdtQ := { s.st2.dirUpdtQ with updt := false } }
    rsp := ⟨false, false, false, 0, 0⟩
    cmoSets := ⟨false, ⟨0, c.sets_pos⟩, ⟨0, c.sets_pos⟩, false, ⟨0, c.sets_pos⟩, ⟨0, c.sets_pos⟩⟩
    mem := s.mem.reset
    miss := s.miss.reset
    wbuf := s.wbuf.reset
    flush := s.flush.reset
    uc := s.uc.reset
    cmo := s.cmo.reset
    err := s.err.reset
    scrub := Scrub.reset c
    rtab := s.rtab.reset }

variable (s : Cache c) (i : CacheIn c)

/-! ## The units as the controller sees them

Without write-through there is no write buffer, and without write-back no flush controller. -/

def wbufEmpty : Bool := !c.wtEn || s.wbuf.empty

def flushEmpty : Bool := !c.wbEn || s.flush.empty

def flushBusy : Bool := c.wbEn && s.flush.busy

def flushAllocReady : Bool := !c.wbEn || s.flush.allocReady

/-- The line that the memory has written. -/
def flushAckNline : Option (Nline c) := if c.wbEn then s.flush.ackNline i.flushAck else none

def ctrlEmpty : Bool :=
  !s.st1.reqValidQ && !(s.st2.mshrAllocQ || s.st2.dirUpdtQ.updt || s.st2.flushAllocQ)

def mshrEmpty : Bool := s.miss.empty

def noPendTrans : Bool := s.ctrlEmpty && s.wbufEmpty && s.mshrEmpty && s.flushEmpty

/-! ## Stage 0 -/

/-- The request of the core, with the attributes that the configuration forces. -/
def coreSt0Req : Req c :=
  { i.coreReq with
    pma :=
      { uncacheable := !i.cfgEnable || i.coreReq.pma.uncacheable
        wrPolicyHint := forceHint c i.coreReq.pma.wrPolicyHint } }

/-- Select between a request of the replay table, of the scrubber and of the core. -/
def st0Req : CtrlReq c :=
  if s.rtab.popTryValid then
    { s.rtab.popTryReq with
      req := { s.rtab.popTryReq.req with physIndexed := true }
      fromRtab := true }
  else if c.eccScrubberEn && s.scrub.reqValid then
    ⟨{ s.scrub.req with physIndexed := true }, false, false, true⟩
  else ⟨coreSt0Req i, false, false, false⟩

/-! ## Stage 1 -/

def st1Pma : Pma :=
  let pma := if s.st1.reqQ.req.physIndexed then s.st1.reqQ.req.pma else i.coreReqPma
  { uncacheable := !i.cfgEnable || pma.uncacheable
    wrPolicyHint := forceHint c pma.wrPolicyHint }

def st1Tag : Nat := if s.st1.reqQ.req.physIndexed then s.st1.reqQ.req.addrTag else i.coreReqTag

/-- The request in stage 1. The tag and the attributes of a virtually indexed request come from
the requester, one cycle after the rest. -/
def st1Req : CtrlReq c :=
  if s.st1.reqQ.fromRtab then s.st1.reqQ
  else
    { s.st1.reqQ with
      req := { s.st1.reqQ.req with addrTag := s.st1Tag i, pma := s.st1Pma i } }

def st1ReqAbort : Bool := i.coreReqAbort && !s.st1.reqQ.req.physIndexed

def st1ReqIsUncacheable : Bool := !i.cfgEnable || (s.st1Req i).req.pma.uncacheable

def st1Nline : Nline c := (s.st1Req i).nline

def st1HitWay : Bits c.ways := s.mem.hitWay (s.st1Req i).req.addrTag

def st1VictimWay : Bits c.ways := s.mem.victimWay (s.st1Req i).req.addrSet

def st1DirHit : Bool := any (s.st1HitWay i)

/-- The way that the request uses: the one it hits, or else the victim. -/
def st1Way : Bits c.ways := if s.st1DirHit i then s.st1HitWay i else s.st1VictimWay i

/-- The flags of the ECC decoders, low without ECC. -/
def eccFlag (v : Bits c.ways) : Bits c.ways := fun w => c.eccEn && v w

/-- Uncorrectable errors in the data of dirty lines. -/
def datErrUncDirty : Bits c.ways :=
  fun w => (s.mem.dirRentry w).valid && (s.mem.dirRentry w).dirty && eccFlag i.datErrUnc w

/-! ## Protocol engine -/

/-- Size and word of the data read by a request. -/
def dataReadReq : CtrlReq c := if c.lowLatency then s.st0Req i else s.st1Req i

def st1NoPendTrans : Bool :=
  !(s.st2.mshrAllocQ || s.st2.dirUpdtQ.updt || s.st2.flushAllocQ) && s.rtab.empty &&
    s.wbufEmpty && s.mshrEmpty && s.flushEmpty

def refillCoreRsp : Option Rsp := s.miss.coreRspOut

/-- The handlers may answer when no refill does. -/
def handlerRspReady : Bool := s.refillCoreRsp.isNone

def ucBusy : Bool := !s.uc.ready

def cmoBusy : Bool := !s.cmo.reqReady s.handlerRspReady

def wbufTag : WbufTag c := Wbuf.tagOf (s.st1Nline i) (s.st1Req i).req.addrOff

def peIn : PeIn where
  coreReqValid := i.coreReqValid
  scrubReqValid := s.scrub.reqValid
  rtabReqValid := s.rtab.popTryValid
  refillReqValid := s.miss.refillReqValid
  st0ReqIsError := (s.st0Req i).isError
  st0ReqIsUncacheable := (s.st0Req i).req.pma.uncacheable
  st0ReqIsLoad := (s.st0Req i).req.op.isLoad && !(s.st0Req i).errScrubbing
  st0ReqIsScrub := (s.st0Req i).req.op.isLoad && (s.st0Req i).errScrubbing
  st0ReqIsStore := (s.st0Req i).req.op.isStore
  st0ReqIsAmo := (s.st0Req i).req.op.isAmo
  st0ReqIsCmoPrefetch := (s.st0Req i).req.op.isCmoPrefetch
  st0ReqIsPartial := (s.st0Req i).isPartial
  st1ReqValid := s.st1.reqValidQ
  st1ReqAbort := s.st1ReqAbort i
  st1ReqRtab := (s.st1Req i).fromRtab
  st1ReqIsError := (s.st1Req i).isError
  st1ReqIsUncacheable := s.st1ReqIsUncacheable i
  st1ReqNeedRsp := (s.st1Req i).req.needRsp
  st1ReqIsLoad := (s.st1Req i).req.op.isLoad && !(s.st1Req i).errScrubbing
  st1ReqIsStore := (s.st1Req i).req.op.isStore
  st1ReqIsAmo := (s.st1Req i).req.op.isAmo
  st1ReqIsCmoInval := (s.st1Req i).req.op.isCmoInval
  st1ReqIsCmoFlush := (s.st1Req i).req.op.isCmoFlush
  st1ReqIsCmoFence := (s.st1Req i).req.op.isCmoFence
  st1ReqIsCmoPrefetch := (s.st1Req i).req.op.isCmoPrefetch
  st1ReqIsPartial := (s.st1Req i).isPartial
  st1ReqWrWt := decide ((s.st1Req i).req.pma.wrPolicyHint = .wt)
  st1ReqWrWb := decide ((s.st1Req i).req.pma.wrPolicyHint = .wb)
  st1ReqWrAuto := decide ((s.st1Req i).req.pma.wrPolicyHint = .auto)
  st1DirHitWback := s.mem.flag (s.st1HitWay i) DirEntry.wback
  st1DirHitDirty := s.mem.flag (s.st1HitWay i) DirEntry.dirty
  st1DirHitFetch := s.mem.flag (s.st1HitWay i) DirEntry.fetch
  st1DirVictimUnavailable := !any (s.st1VictimWay i)
  st1DirVictimValid := s.mem.flag (s.st1VictimWay i) DirEntry.valid
  st1DirVictimWback := s.mem.flag (s.st1VictimWay i) DirEntry.wback
  st1DirVictimDirty := s.mem.flag (s.st1VictimWay i) DirEntry.dirty
  st1DirErrCor := any (eccFlag i.dirErrCor)
  st1DirErrUnc := any (eccFlag i.dirErrUnc)
  st1DatErrCor := any (eccFlag i.datErrCor)
  st1DatErrUnc := any (eccFlag i.datErrUnc)
  st1DatErrUncDirty := any (s.datErrUncDirty i)
  errBusy := s.err.busy
  errWait := s.err.wait
  st1MshrAllocReady := s.miss.allocReady
  st1MshrHit := s.miss.mshr.hit (s.st1Req i).req.addrTag
  st1MshrFull := s.miss.mshr.allocFull
  st1MshrCbufFull := c.wbEn && s.miss.cbuf.allocFull
  st1NoPendTrans := s.st1NoPendTrans
  st2MshrAlloc := s.st2.mshrAllocQ
  st2MshrAllocIsPrefetch := s.st2.mshrAllocIsPrefetchQ
  st2MshrAllocWback := s.st2.mshrAllocWbackQ
  st2MshrAllocDirty := s.st2.mshrAllocDirtyQ
  st2DirUpdt := s.st2.dirUpdtQ
  st2FlushAlloc := s.st2.flushAllocQ
  rdWrConflict := MemCtrl.rdWrConflict c (s.dataReadReq i).req.size (s.dataReadReq i).word
    (s.st1Req i).req.size (s.st1Req i).word
  rtabFull := s.rtab.full i.cfgRtabSingleEntry
  rtabFence := s.rtab.fence
  rtabCheckHit := s.rtab.checkHit (s.st1Nline i)
  cachedirHit := s.st1DirHit i
  cachedirInitReady := s.mem.initQ
  refillBusy := s.miss.refillBusy
  refillCoreRspValid := s.refillCoreRsp.isSome
  wbufWriteReady := !c.wtEn || s.wbuf.writeReady i.cfgWbuf (s.wbufTag i)
  wbufReadHit := c.wtEn && s.wbuf.readHit (s.st1Nline i)
  flushBusy := s.flushBusy
  st1FlushCheckHit := c.wbEn && s.flush.checkHit i.flushAck (s.st1Nline i)
  st1FlushAllocReady := s.flushAllocReady
  ucBusy := s.ucBusy
  cmoBusy := s.cmoBusy
  cmoWait := s.cmo.reqWait
  cfgPrefetchUpdtPlru := i.cfgPrefetchUpdtPlru
  cfgDefaultWb := i.cfgDefaultWb

def pe : PeOut := hpdcacheCtrlPe c (s.peIn i)

/-! ## Inputs of the units -/

def invalHitWay : Bits c.ways := s.mem.hitWay s.miss.head.invalNline.tag

def missIn : MissIn c where
  check := (s.pe i).st0ReqMshrCheck
  checkSet := (s.st0Req i).req.addrSet
  alloc := s.st2.mshrAllocQ
  allocCs := (s.pe i).st2MshrAlloc.cs
  allocNline := s.st2.mshrAllocNlineQ
  allocTid := s.st2.mshrAllocTidQ
  allocSid := s.st2.mshrAllocSidQ
  allocWord := s.st2.mshrAllocOffQ / c.wordBytes
  allocVictimWay := s.st2.mshrAllocVictimWayQ
  allocNeedRsp := s.st2.mshrAllocNeedRspQ
  allocIsPrefetch := s.st2.mshrAllocIsPrefetchQ
  allocWback := s.st2.mshrAllocWbackQ
  allocDirty := s.st2.mshrAllocDirtyQ
  allocWdata := s.st2.mshrAllocWdataQ
  allocBe := s.st2.mshrAllocBeQ
  refillReqReady := (s.pe i).refillReqReady
  invalHit := any s.invalHitWay
  cfgPrefetchUpdtSelVictim := i.cfgPrefetchUpdtPlru
  memReqReady := i.missReqReady
  memResp := i.missResp

def refill : RefillOut c := s.miss.refillComb (s.missIn i)

/-- The data read for the request: in stage 1 in low-latency mode, one cycle later otherwise. -/
def dataReqReadWay : Bits c.ways := if c.lowLatency then s.st1HitWay i else s.dataReqReadWayQ

def dataReqReadData : Nat → Byte := s.mem.readData (s.dataReqReadWay i)

def ucIn : UcIn c where
  reqValid := (s.pe i).ucReqValid
  req := {
    op := (s.st1Req i).req.op
    nline := s.st1Nline i
    off := (s.st1Req i).req.addrOff
    size := (s.st1Req i).req.size
    data := (s.st1Req i).req.wdata
    be := (s.st1Req i).req.be
    uc := s.st1ReqIsUncacheable i
    sid := (s.st1Req i).req.sid
    tid := (s.st1Req i).req.tid
    needRsp := (s.st1Req i).req.needRsp
    hitWay := s.st1HitWay i
    oldData := s.dataReqReadData i }
  lrscSnoop := s.st1.reqValidQ && (s.st1Req i).req.op.isStore
  lrscSnoopNline := s.st1Nline i
  lrscSnoopOff := (s.st1Req i).req.addrOff
  lrscSnoopSize := (s.st1Req i).req.size
  coreRspReady := (s.pe i).ucCoreRspReady
  memReadReady := i.ucReadReady
  memWriteReady := i.ucWriteReady
  memWdataReady := i.ucWdataReady
  memRead := i.ucRead
  memWrite := i.ucWrite
  cfgErrorOnCacheableAmo := i.cfgErrorOnCacheableAmo

def cmoCheckWay : Bits c.ways := s.mem.hitWay s.cmo.nlineQ.tag

def cmoIn : CmoIn c where
  wbufEmpty := s.wbufEmpty
  mshrEmpty := s.mshrEmpty
  rtabEmpty := s.rtab.empty
  ctrlEmpty := s.ctrlEmpty
  reqValid := (s.pe i).cmoReqValid
  reqOp := (s.st1Req i).req.op
  reqNline := s.st1Nline i
  reqSid := (s.st1Req i).req.sid
  reqTid := (s.st1Req i).req.tid
  reqNeedRsp := (s.st1Req i).req.needRsp
  dirtySetEn := c.wbEn && s.cmoSets.dirtyEnQ
  dirtyMinSet := if c.wbEn then s.cmoSets.dirtyMinQ else ⟨0, c.sets_pos⟩
  dirtyMaxSet := if c.wbEn then s.cmoSets.dirtyMaxQ else ⟨0, c.sets_pos⟩
  validSetEn := s.cmoSets.validEnQ
  validMinSet := s.cmoSets.validMinQ
  validMaxSet := s.cmoSets.validMaxQ
  coreRspReady := (s.pe i).cmoCoreRspReady
  dirCheckNlineHitWay := s.cmoCheckWay
  dirCheckNlineWback := s.mem.flag s.cmoCheckWay DirEntry.wback
  dirCheckNlineDirty := s.mem.flag s.cmoCheckWay DirEntry.dirty
  dirCheckEntryValid := s.mem.flag s.mem.dirReqWayQ DirEntry.valid
  dirCheckEntryWback := s.mem.flag s.mem.dirReqWayQ DirEntry.wback
  dirCheckEntryDirty := s.mem.flag s.mem.dirReqWayQ DirEntry.dirty
  dirCheckEntryTag := s.mem.tagOf s.mem.dirReqWayQ
  flushEmpty := s.flushEmpty
  flushAllocReady := s.flushAllocReady

def cmoOut : CmoOut c := s.cmo.comb (s.cmoIn i)

/-- The line that the CMO handler gives to the flush controller. -/
def cmoFlushAlloc : Option (CmoFlushReq c) := s.cmo.flushAlloc (s.cmoIn i)

/-- The allocation of the pipeline goes before that of the CMO handler. The data of a line is read
from the way that the controller has registered. -/
def flushIn : FlushIn c where
  alloc := s.st2.flushAllocQ || (s.cmoFlushAlloc i).isSome
  allocNline :=
    if s.st2.flushAllocQ then s.st2.flushAllocNlineQ
    else (s.cmoFlushAlloc i).elim s.st2.flushAllocNlineQ CmoFlushReq.nline
  allocWay :=
    if s.st2.flushAllocQ then s.st2.flushAllocWayQ
    else (s.cmoFlushAlloc i).elim s.st2.flushAllocWayQ CmoFlushReq.way
  readData := s.mem.flushReadData s.flush.wayQ s.err.wayQ
  memReqReady := i.flushReqReady
  memDataReady := i.flushDataReady
  ack := i.flushAck

def flushRead : FlushRead c := s.flush.dataRead (s.flushIn i)

def errIn : ErrIn c where
  trigger := (s.pe i).st1Err
  set := (s.st1Req i).req.addrSet
  word := (s.st1Req i).word
  dirUnc := eccFlag i.dirErrUnc
  dirCor := eccFlag i.dirErrCor
  datUnc := eccFlag i.datErrUnc
  datCor := eccFlag i.datErrCor
  mshrEmpty := s.mshrEmpty
  dirRdata := s.mem.dirErrRdata
  datRdata := if c.eccEn then s.mem.flushReadData (s.flushRead i).way s.err.wayQ else fun _ => 0

def errOut : ErrOut c := s.err.comb (s.errIn i)

def wbufIn : WbufIn c where
  cfg := i.cfgWbuf
  flushAll := (s.cmoOut i).wbufFlushAll || s.uc.wbufFlushAll (s.ucIn i) || i.wbufFlush
  write := (s.pe i).wbufWriteValid
  nline := s.st1Nline i
  offset := (s.st1Req i).req.addrOff
  writeData := (s.st1Req i).req.wdata
  writeBe := (s.st1Req i).req.be
  -- the engine never asks for an uncacheable write
  writeUc := false
  readFlushHit := (s.pe i).wbufReadFlushHit
  memReqReady := i.wbufReqReady
  memDataReady := i.wbufDataReady
  ack := i.wbufAck

/-- What the replay table asks the write buffer. -/
def rtabWbufReq : Req c := (s.rtab.reqQ s.rtab.wbufPtr).req.req

def rtabIn : RtabIn c where
  checkNline := s.st1Nline i
  alloc := (s.pe i).st1RtabAlloc
  allocAndLink := (s.pe i).st1RtabAllocAndLink
  allocReq := ⟨s.st1Req i, toBinary c.ways_pos (s.st1HitWay i)⟩
  allocDeps := (s.pe i).st1RtabDeps
  popTry := (s.pe i).rtabReqReady
  popCommit := (s.pe i).st1RtabCommit
  popCommitPtr := s.st1.rtabPopTryPtrQ
  popRback := (s.pe i).st1RtabRback
  popRbackPtr := s.st1.rtabPopTryPtrQ
  wbufHit :=
    let n := s.rtab.nline s.rtab.wbufPtr
    let off := s.rtabWbufReq.addrOff
    let rd := s.rtab.isRead s.rtab.wbufPtr
    c.wtEn && (s.wbuf.replayHit .opened n off rd || s.wbuf.replayHit .pend n off rd ||
      s.wbuf.replayHit .sent n off rd)
  wbufNotReady :=
    c.wtEn && s.wbuf.replayNotReady i.cfgWbuf (s.rtab.nline s.rtab.wbufPtr)
      s.rtabWbufReq.addrOff (s.rtab.isRead s.rtab.wbufPtr)
  missReady := s.miss.allocReady
  refill := (s.refill i).updtRtab
  refillIsError := s.miss.refillIsError
  refillNline := s.miss.refillNline
  refillWayIndex := toBinary c.ways_pos (s.miss.refillWay (s.refill i))
  flushAckNline := s.flushAckNline i
  flushReady := s.flushAllocReady
  noPendTrans := s.noPendTrans

def memIn : MemIn c where
  dirMatch := (s.pe i).st0ReqCachedirRead
  dirMatchSet := (s.st0Req i).req.addrSet
  dirMatchTag := (s.st1Req i).req.addrTag
  dirUpdtSelVictim := (s.pe i).st1ReqCachedirUpdtSelVictim
  dirUpdt := s.st2.dirUpdtQ.updt
  dirUpdtSet := s.st2.dirUpdtSetQ
  dirUpdtWay := s.st2.dirUpdtWayQ
  dirUpdtEntry :=
    ⟨s.st2.dirUpdtQ.valid, s.st2.dirUpdtQ.wback, s.st2.dirUpdtQ.dirty, s.st2.dirUpdtQ.fetch,
      s.st2.dirUpdtTagQ⟩
  dirRefill := (s.refill i).writeDir
  dirRefillSet := (s.refill i).set
  dirRefillWay := s.miss.refillWay (s.refill i)
  dirRefillEntry := s.miss.refillDirEntry
  dirRefillUpdtSelVictim := (s.refill i).updtSelVictim
  dirVictimSel := (s.pe i).st1ReqCachedirSelVictim
  dirVictimSet := (s.st1Req i).req.addrSet
  dirInvalCheck := (s.refill i).invalCheckDir
  dirInvalNline := s.miss.head.invalNline
  dirInvalWrite := (s.refill i).invalWriteDir
  dirCmoCheckNline := (s.cmoOut i).dirCheckNline
  dirCmoCheckNlineSet := s.cmo.nlineQ.set
  dirCmoCheckEntry := (s.cmoOut i).dirCheckEntry
  dirCmoCheckEntrySet := s.cmo.setQ
  dirCmoCheckEntryWay := s.cmo.wayQ
  dirCmoUpdt := (s.cmoOut i).dirUpdt
  dirCmoUpdtSet := (s.cmoOut i).dirUpdtSet
  dirCmoUpdtWay := (s.cmoOut i).dirUpdtWay
  dirCmoUpdtEntry := (s.cmoOut i).dirUpdtEntry
  dirErrSet := s.err.setQ
  dirErrWay := s.err.wayQ
  dirErrRead := (s.errOut i).dirRead
  dirErrWrite := (s.errOut i).dirWrite
  dirErrWdata := (s.errOut i).dirWdata
  dataReqRead := (s.pe i).reqCachedataRead
  dataReqReadSet := (s.dataReadReq i).req.addrSet
  dataReqReadSize := (s.dataReadReq i).req.size
  dataReqReadWord := (s.dataReadReq i).word
  dataReqReadWay := s.dataReqReadWay i
  dataReqWrite := (s.pe i).st1ReqCachedataWrite
  dataReqWriteEnable := (s.pe i).st1ReqCachedataWriteEnable
  dataReqWriteMerge := (s.pe i).st1ReqCachedataWriteMerge
  dataReqWriteSet := (s.st1Req i).req.addrSet
  dataReqWriteWay := s.st1HitWay i
  dataReqWriteSize := (s.st1Req i).req.size
  dataReqWriteWord := (s.st1Req i).word
  dataReqWriteData := (s.st1Req i).req.wdata
  dataReqWriteBe := (s.st1Req i).req.be
  dataAmoWrite := s.uc.dataAmoWrite
  dataAmoWriteEnable := s.uc.reqHit
  dataAmoWriteSet := s.uc.reqQ.nline.set
  dataAmoWriteSize := s.uc.reqQ.size
  dataAmoWriteWord := s.uc.reqQ.off / c.wordBytes
  dataAmoWriteWay := s.uc.reqQ.hitWay
  dataAmoWriteData := s.uc.dataAmoWriteData
  dataAmoWriteBe := s.uc.dataAmoWriteBe
  dataFlushRead := c.wbEn && (s.flushRead i).read
  dataFlushReadSet := (s.flushRead i).set
  dataFlushReadWord := (s.flushRead i).word
  dataFlushReadWay := (s.flushRead i).way
  dataRefill := (s.refill i).writeData
  dataRefillSet := (s.refill i).set
  dataRefillWay := s.miss.refillWay (s.refill i)
  dataRefillWord := s.miss.refillCntQ
  dataRefillData := s.miss.refillData
  dataErrSet := s.err.setQ
  dataErrWay := s.err.wayQ
  dataErrWord := s.err.datWordQ
  dataErrRead := (s.errOut i).datRead
  dataErrWrite := (s.errOut i).datWrite
  dataErrWdata := (s.errOut i).datWdata

/-! ## One cycle -/

def stepSt1 : St1 c where
  reqValidQ := (s.pe i).st1ReqValid
  reqQ := if (s.pe i).coreReqReady || (s.pe i).rtabReqReady then s.st0Req i else s.st1.reqQ
  rtabPopTryPtrQ := if (s.pe i).rtabReqReady then s.rtab.popTryPtr else s.st1.rtabPopTryPtrQ

/-- The registers of an operation are loaded when stage 1 requests it. -/
def stepSt2 : St2 c :=
  let o := s.pe i
  let r := s.st1Req i
  let mshr := o.st2MshrAlloc.alloc
  let flush := o.st2FlushAlloc
  let dir := o.st2DirUpdt.updt
  { mshrAllocQ := mshr
    mshrAllocNlineQ := if mshr then s.st1Nline i else s.st2.mshrAllocNlineQ
    mshrAllocOffQ := if mshr then r.req.addrOff else s.st2.mshrAllocOffQ
    mshrAllocSidQ := if mshr then r.req.sid else s.st2.mshrAllocSidQ
    mshrAllocTidQ := if mshr then r.req.tid else s.st2.mshrAllocTidQ
    mshrAllocWdataQ := if mshr then r.req.wdata else s.st2.mshrAllocWdataQ
    mshrAllocBeQ := if mshr then r.req.be else s.st2.mshrAllocBeQ
    mshrAllocNeedRspQ := if mshr then o.st2MshrAlloc.needRsp else s.st2.mshrAllocNeedRspQ
    mshrAllocIsPrefetchQ :=
      if mshr then r.req.op.isCmoPrefetch else s.st2.mshrAllocIsPrefetchQ
    mshrAllocWbackQ := if mshr then o.st2MshrAlloc.wback else s.st2.mshrAllocWbackQ
    mshrAllocDirtyQ := if mshr then o.st2MshrAlloc.dirty else s.st2.mshrAllocDirtyQ
    mshrAllocVictimWayQ := if mshr then s.st1VictimWay i else s.st2.mshrAllocVictimWayQ
    flushAllocQ := flush
    flushAllocNlineQ :=
      if flush then
        (if s.st1DirHit i then s.st1Nline i
         else ⟨s.mem.tagOf (s.st1VictimWay i), r.req.addrSet⟩)
      else s.st2.flushAllocNlineQ
    flushAllocWayQ := if flush then s.st1Way i else s.st2.flushAllocWayQ
    dirUpdtQ := if dir then o.st2DirUpdt else { s.st2.dirUpdtQ with updt := false }
    dirUpdtTagQ := if dir then s.mem.tagOf (s.st1Way i) else s.st2.dirUpdtTagQ
    dirUpdtSetQ := if dir then r.req.addrSet else s.st2.dirUpdtSetQ
    dirUpdtWayQ := if dir then s.st1Way i else s.st2.dirUpdtWayQ }

/-- The response of stage 1. -/
def st1Rsp : St2Rsp where
  validQ := (s.pe i).st1RspValid
  abortedQ := (s.pe i).st1RspAborted
  errorQ := (s.pe i).st1RspError
  sidQ := (s.st1Req i).req.sid
  tidQ := (s.st1Req i).req.tid

def minSet (a b : Fin c.sets) : Fin c.sets := if a < b then a else b

def maxSet (a b : Fin c.sets) : Fin c.sets := if a < b then b else a

/-- Dirty and valid cachelines tracking. -/
def stepCmoSets : CmoSets c :=
  let t := s.cmoSets
  let e := s.miss.refillDirEntry
  let set := (s.refill i).set
  let updt := s.st2.dirUpdtQ.updt && s.st2.dirUpdtQ.dirty
  let dirtyRefill := (s.refill i).writeDir && e.dirty
  let dirtySet := if updt then s.st2.dirUpdtSetQ else set
  let dirty := updt || dirtyRefill
  let valid := (s.refill i).writeDir && e.valid
  { dirtyEnQ := dirty || (!(s.cmoOut i).flushAll && t.dirtyEnQ)
    dirtyMinQ :=
      if dirty then (if t.dirtyEnQ then minSet dirtySet t.dirtyMinQ else dirtySet)
      else t.dirtyMinQ
    dirtyMaxQ :=
      if dirty then (if t.dirtyEnQ then maxSet dirtySet t.dirtyMaxQ else dirtySet)
      else t.dirtyMaxQ
    validEnQ := valid || (!(s.cmoOut i).invalAll && t.validEnQ)
    validMinQ :=
      if valid then (if t.validEnQ then minSet set t.validMinQ else set) else t.validMinQ
    validMaxQ :=
      if valid then (if t.validEnQ then maxSet set t.validMaxQ else set) else t.validMaxQ }

def step : Cache c where
  st1 := s.stepSt1 i
  st2 := s.stepSt2 i
  rsp := s.st1Rsp i
  dataReqReadWayQ := s.st1HitWay i
  cmoSets := s.stepCmoSets i
  mem := s.mem.step (s.memIn i)
  miss := s.miss.step (s.missIn i)
  wbuf := if c.wtEn then s.wbuf.step (s.wbufIn i) else s.wbuf
  flush := if c.wbEn then s.flush.step (s.flushIn i) else s.flush
  uc := s.uc.step (s.ucIn i)
  cmo := s.cmo.step (s.cmoIn i)
  err := s.err.step (s.errIn i)
  scrub := s.scrub.step
    ⟨(s.pe i).scrubReqReady, i.cfgScrubEnable, i.cfgScrubRestart, i.cfgScrubPeriod⟩
  rtab := s.rtab.step (s.rtabIn i)

/-! ## Outputs -/

def coreReqReady : Bool := (s.pe i).coreReqReady

/-- The response of the pipeline. -/
def pipeRsp : St2Rsp := if c.lowLatency then s.st1Rsp i else s.rsp

def ucRspValid : Bool := s.uc.coreRspValid && (s.pe i).ucCoreRspReady

def cmoRspValid : Bool := s.cmo.coreRspValid && (s.pe i).cmoCoreRspReady

/-- The response to the requesters. The data, the identifiers and the error come from the first
source in the order refill, CMO, uncacheable, pipeline; the abort always from the pipeline. -/
def coreRsp : Option Rsp :=
  let p := s.pipeRsp i
  let src : Rsp :=
    match s.refillCoreRsp with
    | some r => r
    | none =>
      if s.cmo.coreRspValid then s.cmo.coreRsp
      else if s.uc.coreRspValid then s.uc.coreRsp
      else ⟨s.dataReqReadData i, p.sidQ, p.tidQ, p.errorQ, p.abortedQ⟩
  if s.refillCoreRsp.isSome || s.ucRspValid i || s.cmoRspValid i || p.validQ then
    some { src with aborted := p.abortedQ }
  else none

end Cache

end Hpdcache
