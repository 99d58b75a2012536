import Hpdcache.Pkg

/-!
# The protocol engine

The combinational block that decides, in each cycle, what becomes of the request in stage 1, what
the pending stage-2 operations do, and which new request is granted. It is embedded signal by
signal: the default assignments are `PeOut.default`, and each nested block of the source is a
function that overrides some of the outputs it is given, applied in the order of the source.

* `st2Pending` — the operations registered for stage 2.
* `st1Request` — the request in stage 1, through `st1Uncacheable`, `st1EccError`, `st1Amo`,
  `st1Load` and `st1Store`.
* `newRequest` — the grant of a new request and the stage-0 lookups.
* `hpdcacheCtrlPe` — the whole engine with its continuous assignments.
-/

namespace Hpdcache

/-! ## Signals -/

/-- A directory update, as it travels from stage 1 to stage 2. -/
structure DirUpdt where
  updt : Bool
  valid : Bool
  wback : Bool
  dirty : Bool
  fetch : Bool
  deriving DecidableEq, Repr, Inhabited

/-- An MSHR allocation, as it travels from stage 1 to stage 2. -/
structure MshrAlloc where
  alloc : Bool
  cs : Bool
  needRsp : Bool
  wback : Bool
  dirty : Bool
  deriving DecidableEq, Repr

/-- Inputs of the protocol engine. -/
structure PeIn where
  -- arbiter
  coreReqValid : Bool
  scrubReqValid : Bool
  rtabReqValid : Bool
  refillReqValid : Bool
  -- pipeline stage 0
  st0ReqIsError : Bool
  st0ReqIsUncacheable : Bool
  st0ReqIsLoad : Bool
  st0ReqIsScrub : Bool
  st0ReqIsStore : Bool
  st0ReqIsAmo : Bool
  st0ReqIsCmoPrefetch : Bool
  st0ReqIsPartial : Bool
  -- pipeline stage 1
  st1ReqValid : Bool
  st1ReqAbort : Bool
  st1ReqRtab : Bool
  st1ReqIsError : Bool
  st1ReqIsUncacheable : Bool
  st1ReqNeedRsp : Bool
  st1ReqIsLoad : Bool
  st1ReqIsStore : Bool
  st1ReqIsAmo : Bool
  st1ReqIsCmoInval : Bool
  st1ReqIsCmoFlush : Bool
  st1ReqIsCmoFence : Bool
  st1ReqIsCmoPrefetch : Bool
  st1ReqIsPartial : Bool
  st1ReqWrWt : Bool
  st1ReqWrWb : Bool
  st1ReqWrAuto : Bool
  st1DirHitWback : Bool
  st1DirHitDirty : Bool
  st1DirHitFetch : Bool
  st1DirVictimUnavailable : Bool
  st1DirVictimValid : Bool
  st1DirVictimWback : Bool
  st1DirVictimDirty : Bool
  st1DirErrCor : Bool
  st1DirErrUnc : Bool
  st1DatErrCor : Bool
  st1DatErrUnc : Bool
  st1DatErrUncDirty : Bool
  errBusy : Bool
  errWait : Bool
  st1MshrAllocReady : Bool
  st1MshrHit : Bool
  st1MshrFull : Bool
  st1MshrCbufFull : Bool
  st1NoPendTrans : Bool
  -- pipeline stage 2
  st2MshrAlloc : Bool
  st2MshrAllocIsPrefetch : Bool
  st2MshrAllocWback : Bool
  st2MshrAllocDirty : Bool
  st2DirUpdt : DirUpdt
  st2FlushAlloc : Bool
  -- cache data
  rdWrConflict : Bool
  -- replay table
  rtabFull : Bool
  rtabFence : Bool
  rtabCheckHit : Bool
  -- cache directory
  cachedirHit : Bool
  cachedirInitReady : Bool
  -- refill interface
  refillBusy : Bool
  refillCoreRspValid : Bool
  -- write buffer
  wbufWriteReady : Bool
  wbufReadHit : Bool
  -- flush controller
  flushBusy : Bool
  st1FlushCheckHit : Bool
  st1FlushAllocReady : Bool
  -- uncacheable and CMO handlers
  ucBusy : Bool
  cmoBusy : Bool
  cmoWait : Bool
  -- configuration
  cfgPrefetchUpdtPlru : Bool
  cfgDefaultWb : Bool
  deriving DecidableEq, Repr, Inhabited

/-- Performance events. -/
structure PeEvt where
  cacheWriteMiss : Bool := false
  cacheReadMiss : Bool := false
  cacheDirUncErr : Bool := false
  cacheDirCorErr : Bool := false
  cacheDatUncErr : Bool := false
  cacheDatCorErr : Bool := false
  uncachedReq : Bool := false
  cmoReq : Bool := false
  writeReq : Bool := false
  readReq : Bool := false
  prefetchReq : Bool := false
  reqOnHold : Bool := false
  rtabRollback : Bool := false
  stallRefill : Bool := false
  stall : Bool := false
  deriving DecidableEq, Repr

/-- Outputs of the protocol engine, with the internal signals `st1Nop`, `st2Nop`,
`st1RtabAllocI`, `st0ReqCachedataRead` and `st1ReqCachedataRead` of its process. -/
structure PeOut where
  -- arbiter
  coreReqReady : Bool := false
  scrubReqReady : Bool := false
  rtabReqReady : Bool := false
  refillReqReady : Bool := false
  -- pipeline stage 0
  st0ReqMshrCheck : Bool := false
  st0ReqCachedirRead : Bool := false
  st0ReqCachedataRead : Bool := false
  -- pipeline stage 1
  st1ReqValid : Bool
  st1Nop : Bool := false
  st1ReqCachedataRead : Bool := false
  st1ReqCachedataWrite : Bool := false
  st1ReqCachedataWriteEnable : Bool := false
  st1ReqCachedataWriteMerge : Bool := false
  st1ReqCachedirSelVictim : Bool := false
  st1ReqCachedirUpdtSelVictim : Bool := false
  st1RspValid : Bool := false
  st1RspError : Bool := false
  st1RspAborted : Bool := false
  st1Err : Bool := false
  -- pipeline stage 2
  st2MshrAlloc : MshrAlloc
  st2FlushAlloc : Bool
  st2DirUpdt : DirUpdt
  st2Nop : Bool := false
  -- replay table
  rtabCheck : Bool := false
  st1RtabAllocI : Bool := false
  st1RtabAlloc : Bool := false
  st1RtabAllocAndLink : Bool := false
  st1RtabCommit : Bool := false
  st1RtabRback : Bool := false
  st1RtabDeps : RtabDeps := {}
  -- write buffer
  wbufWriteValid : Bool := false
  wbufReadFlushHit : Bool := false
  -- uncacheable and CMO handlers
  ucReqValid : Bool := false
  ucCoreRspReady : Bool := false
  cmoReqValid : Bool := false
  cmoCoreRspReady : Bool := false
  -- cache data
  reqCachedataRead : Bool := false
  -- performance events
  evt : PeEvt := {}
  deriving DecidableEq, Repr

/-- Default assignments: every output is low, and the stage-2 registers hold their value. -/
def PeOut.default (i : PeIn) : PeOut where
  st1ReqValid := i.st1ReqValid
  st2MshrAlloc :=
    { alloc := i.st2MshrAlloc, cs := false, needRsp := false,
      wback := i.st2MshrAllocWback, dirty := i.st2MshrAllocDirty }
  st2FlushAlloc := i.st2FlushAlloc
  st2DirUpdt := i.st2DirUpdt

/-- Fence-like requests execute in program order, irrespectively of addresses. -/
def PeIn.st1Fence (i : PeIn) : Bool :=
  i.st1ReqIsAmo || i.st1ReqIsUncacheable || i.st1ReqIsCmoFence || i.st1ReqIsCmoInval ||
    i.st1ReqIsCmoFlush

/-! ## Stage 2 -/

def st2PendingMshr (i : PeIn) (o : PeOut) : PeOut :=
  if i.st2MshrAlloc then
    { o with
      st2MshrAlloc := { o.st2MshrAlloc with alloc := false, cs := true }
      st2Nop := true
      evt := { o.evt with
        cacheReadMiss := !i.st2MshrAllocIsPrefetch
        readReq := !i.st2MshrAllocIsPrefetch
        prefetchReq := i.st2MshrAllocIsPrefetch } }
  else o

def st2PendingFlush (i : PeIn) (o : PeOut) : PeOut :=
  if i.st2FlushAlloc then { o with st2FlushAlloc := false, st2Nop := true } else o

def st2PendingDirUpdt (i : PeIn) (o : PeOut) : PeOut :=
  if i.st2DirUpdt.updt then
    { o with st2DirUpdt := { o.st2DirUpdt with updt := false }, st2Nop := true }
  else o

/-- Stage-2 operations pending: each is performed and inserts a nop. -/
def st2Pending (i : PeIn) (o : PeOut) : PeOut :=
  st2PendingDirUpdt i (st2PendingFlush i (st2PendingMshr i o))

/-! ## Stage 1

The bodies of the branches that do more than put the request on hold are named: an answer, an
allocation, a handover or a flush is one function on the outputs. -/

namespace PeOut

/-- Put the request on hold with the dependencies `d`. Every branch that does so inserts a nop. -/
def hold (o : PeOut) (d : RtabDeps) : PeOut :=
  { o with st1RtabAllocI := true, st1RtabDeps := d, st1Nop := true }

/-- Update the directory with the given state. -/
def dirUpdt (o : PeOut) (valid wback dirty fetch : Bool) : PeOut :=
  { o with st2DirUpdt := ⟨true, valid, wback, dirty, fetch⟩ }

/-- CMO fence, invalidation or flush. -/
def sendCmo (o : PeOut) : PeOut :=
  { o with cmoReqValid := true, st1Nop := true, evt := { o.evt with cmoReq := true } }

/-- Hand the request to the uncacheable handler. -/
def sendUc (i : PeIn) (o : PeOut) : PeOut :=
  { o with
    ucReqValid := true
    st1Nop := true
    st1RtabCommit := i.st1ReqRtab
    evt := { o.evt with uncachedReq := true } }

/-- Reserve the victim way and flush the line that it holds when this is dirty. -/
def reserveVictim (i : PeIn) (o : PeOut) : PeOut :=
  { o.dirUpdt i.st1DirVictimValid i.st1DirVictimWback false true with
    st2FlushAlloc := i.st1DirVictimDirty }

/-- Allocate the MSHR for a load or a prefetch. -/
def allocLoad (i : PeIn) (o : PeOut) : PeOut :=
  { o with
    st1RtabCommit := i.st1ReqRtab
    st2MshrAlloc := { o.st2MshrAlloc with
      alloc := true
      needRsp := i.st1ReqNeedRsp
      wback := (i.st1ReqWrAuto && i.cfgDefaultWb) || i.st1ReqWrWb
      dirty := false } }

/-- Allocate the MSHR and the coalescing buffer for a write-back store. -/
def allocStore (i : PeIn) (o : PeOut) : PeOut :=
  { o with
    st2MshrAlloc := { o.st2MshrAlloc with
      alloc := true, needRsp := i.st1ReqNeedRsp, wback := true, dirty := true }
    st1RtabCommit := i.st1ReqRtab
    evt := { o.evt with cacheWriteMiss := true, writeReq := true } }

/-- The coalescing buffer is full: the miss is sent, but the write waits for the refill. -/
def allocStoreHold (o : PeOut) : PeOut :=
  { o.hold { writeMiss := true } with
    st2MshrAlloc := { o.st2MshrAlloc with
      alloc := true, needRsp := false, wback := true, dirty := false }
    evt := { o.evt with cacheWriteMiss := true, writeReq := false } }

/-- Answer a load or a prefetch that hits. -/
def answerLoad (c : Cfg) (i : PeIn) (o : PeOut) : PeOut :=
  { o with
    st1RtabCommit := i.st1ReqRtab
    st1Nop := i.st1ReqRtab && !i.rtabReqValid
    st1ReqCachedirUpdtSelVictim := !i.st1ReqIsCmoPrefetch || i.cfgPrefetchUpdtPlru
    st1ReqCachedataRead := if c.lowLatency then o.st1ReqCachedataRead else true
    st1RspValid := i.st1ReqNeedRsp
    evt := { o.evt with
      readReq := !i.st1ReqIsCmoPrefetch
      prefetchReq := i.st1ReqIsCmoPrefetch } }

/-- Answer a store that misses and goes to the write buffer. -/
def answerStoreMiss (i : PeIn) (o : PeOut) : PeOut :=
  { o with
    st1RtabCommit := i.st1ReqRtab
    st1RspValid := i.st1ReqNeedRsp
    evt := { o.evt with cacheWriteMiss := true, writeReq := true } }

/-- Answer a store that hits and writes the data RAM. -/
def answerStoreHit (i : PeIn) (o : PeOut) : PeOut :=
  { o with
    st1RtabCommit := i.st1ReqRtab
    st1RspValid := i.st1ReqNeedRsp
    st1ReqCachedataWriteEnable := true
    st1ReqCachedirUpdtSelVictim := true
    evt := { o.evt with writeReq := true } }

end PeOut

/-- Uncacheable load, store or AMO. -/
def st1Uncacheable (i : PeIn) (o : PeOut) : PeOut :=
  if !i.st1NoPendTrans && !i.st1ReqRtab then o.hold {}
  else if !i.cachedirHit then o.sendUc i
  else if i.st1DirHitDirty then
    -- the cached copy is dirty: flush it, invalidate it and replay the request
    if !i.st1FlushAllocReady then o.hold { flushNotReady := true }
    else { (o.hold {}).dirUpdt false false false false with st2FlushAlloc := true }
  else if i.st1DirHitFetch then o.hold { dirFetch := true }
  -- the fetch bit is the one output of the update that this branch does not assign
  else (o.sendUc i).dirUpdt false false false o.st2DirUpdt.fetch

/-- Errors detected in the directory or in the data by the ECC decoders. -/
def st1EccError (c : Cfg) (i : PeIn) (o : PeOut) : PeOut :=
  if c.eccEn && (i.st1DirErrUnc || i.st1DatErrUncDirty) then
    { o with
      st1Err := true
      st1RtabAllocI := !c.wbEn
      st1RspValid := c.wbEn && i.st1ReqNeedRsp
      st1RspError := c.wbEn && i.st1ReqNeedRsp
      st1Nop := true
      evt :=
        if c.wbEn then
          { o.evt with cacheDirUncErr := i.st1DirErrUnc, cacheDatUncErr := i.st1DatErrUnc }
        else
          { o.evt with cacheDirCorErr := i.st1DirErrUnc, cacheDatCorErr := i.st1DatErrUnc } }
  else if c.eccEn && (i.st1DirErrCor || i.st1DatErrCor || i.st1DatErrUnc) then
    { o with
      st1Err := true
      st1RtabAllocI := true
      st1Nop := true
      evt := { o.evt with
        cacheDirCorErr := i.st1DirErrCor
        cacheDatCorErr := i.st1DatErrCor || i.st1DatErrUnc } }
  else o

/-- Cacheable AMO: a dirty copy is flushed first, then the request goes to the memory. -/
def st1Amo (i : PeIn) (o : PeOut) : PeOut :=
  if i.st1ReqIsAmo && !o.st1Err then
    if !i.st1NoPendTrans && !i.st1ReqRtab then o.hold o.st1RtabDeps
    else
      let o : PeOut := { o with st1Nop := true }
      let o : PeOut :=
        if i.cachedirHit then
          -- the fetch bit is kept: the way may be reserved for a pending miss
          let o : PeOut :=
            { o.dirUpdt true i.st1DirHitWback false i.st1DirHitFetch with
              st2FlushAlloc := i.st1DirHitDirty
              st1ReqCachedirUpdtSelVictim := true }
          if i.st1DirHitDirty then { o with st1RtabAllocI := true }
          else { o with ucReqValid := true }
        else { o with ucReqValid := true }
      { o with
        st1RtabCommit := i.st1ReqRtab && o.ucReqValid
        evt := { o.evt with uncachedReq := o.ucReqValid } }
  else o

/-- Why a load or a prefetch that misses is put on hold, if it is. -/
def loadMissDeps (i : PeIn) : Option RtabDeps :=
  if i.st1MshrHit then some { mshrHit := true }
  else if i.st1MshrFull then some { mshrFull := true }
  else if i.st1DirVictimUnavailable then some { dirUnavailable := true }
  else if i.wbufReadHit then some { wbufHit := true }
  else if !i.st1MshrAllocReady then some { mshrReady := true }
  else if i.st1FlushCheckHit then some { flushHit := true }
  else if i.st1DirVictimDirty && !i.st1FlushAllocReady then some { flushNotReady := true }
  else none

/-- Load or prefetch that misses in the directory. -/
def st1LoadMiss (i : PeIn) (o : PeOut) : PeOut :=
  let o : PeOut :=
    { o with st1Nop := true, wbufReadFlushHit := true, st1ReqCachedirSelVictim := true }
  match loadMissDeps i with
  | some d => o.hold d
  | none => (o.reserveVictim i).allocLoad i

/-- Change of the write policy of the line by a load that hits. -/
def st1LoadHitPolicy (i : PeIn) (o : PeOut) : PeOut :=
  -- no update of a line that is reserved to be replaced
  if !i.st1DirHitFetch then
    let o : PeOut :=
      if i.st1ReqWrWt && i.st1DirHitWback then
        { o.dirUpdt true false false false with st2FlushAlloc := i.st1DirHitDirty, st1Nop := true }
      else o
    if i.st1ReqWrWb && !i.st1DirHitWback then
      { o.dirUpdt true true false false with st1Nop := true }
    else o
  else o

/-- Load or prefetch that hits in the directory. -/
def st1LoadHit (c : Cfg) (i : PeIn) (o : PeOut) : PeOut :=
  if i.st1ReqWrWt && i.st1DirHitWback && i.st1DirHitDirty && !i.st1FlushAllocReady then
    o.hold { flushNotReady := true }
  else st1LoadHitPolicy i (o.answerLoad c i)

/-- Cacheable load or prefetch. -/
def st1Load (c : Cfg) (i : PeIn) (o : PeOut) : PeOut :=
  if (i.st1ReqIsLoad || i.st1ReqIsCmoPrefetch) && !o.st1Err then
    if !i.cachedirHit then st1LoadMiss i o else st1LoadHit c i o
  else o

/-- Why a write-back store that misses is put on hold, if it is. -/
def storeMissWbDeps (i : PeIn) : Option RtabDeps :=
  if !i.st1MshrAllocReady then some { mshrReady := true }
  else if i.st1MshrFull then some { mshrFull := true }
  else if i.wbufReadHit then some { wbufHit := true }
  else if i.st1DirVictimUnavailable then some { dirUnavailable := true }
  else if i.st1DirVictimDirty && !i.st1FlushAllocReady then some { flushNotReady := true }
  else none

/-- Write-back store that misses: a write-allocate, coalesced with the refill. -/
def st1StoreMissWb (i : PeIn) (o : PeOut) : PeOut :=
  let o : PeOut :=
    { o with st1ReqCachedirSelVictim := true, wbufReadFlushHit := true, st1Nop := true }
  match storeMissWbDeps i with
  | some d => o.hold d
  | none =>
    let o := o.reserveVictim i
    if i.st1MshrCbufFull then o.allocStoreHold else o.allocStore i

/-- Write-through store that misses. -/
def st1StoreMissWt (i : PeIn) (o : PeOut) : PeOut :=
  let o : PeOut := { o with wbufWriteValid := true }
  if !i.wbufWriteReady then o.hold { wbufNotReady := true } else o.answerStoreMiss i

/-- Write-back store that hits. -/
def st1StoreHitWb (i : PeIn) (o : PeOut) : PeOut :=
  let o : PeOut := { o with wbufReadFlushHit := true }
  if i.wbufReadHit then o.hold { wbufHit := true }
  else if !i.st1DirHitWback || !i.st1DirHitDirty then
    { (o.dirUpdt true true true false).answerStoreHit i with st1Nop := true }
  else o.answerStoreHit i

/-- Write-through store that hits. -/
def st1StoreHitWt (i : PeIn) (o : PeOut) : PeOut :=
  let o : PeOut := { o with wbufWriteValid := !i.st1DirHitDirty }
  if i.st1DirHitDirty && !i.st1FlushAllocReady then o.hold { flushNotReady := true }
  else if i.st1DirHitDirty then
    -- flush the line but keep it; the store replays when the flush is acknowledged
    { (o.hold { flushHit := true }).dirUpdt true false false false with st2FlushAlloc := true }
  else if !i.wbufWriteReady then o.hold { wbufNotReady := true }
  else o.answerStoreHit i

/-- The nop of a store that does not need the pipeline for anything else. -/
def st1StoreNop (c : Cfg) (i : PeIn) : Bool :=
  (i.st1ReqRtab && !i.rtabReqValid) ||
    (c.lowLatency && i.rdWrConflict &&
      (i.st0ReqIsLoad ||
        (c.eccEn && ((i.st0ReqIsStore && i.st0ReqIsPartial) ||
          (i.st0ReqIsAmo && i.st0ReqIsPartial) || (c.eccScrubberEn && i.st0ReqIsScrub)))))

/-- Cacheable store. -/
def st1Store (c : Cfg) (i : PeIn) (o : PeOut) : PeOut :=
  if i.st1ReqIsStore && !o.st1Err then
    let o : PeOut :=
      { o with
        st1Nop := st1StoreNop c i
        st1ReqCachedataWrite := true
        st1ReqCachedataWriteMerge :=
          if c.eccEn then i.st1ReqIsPartial else o.st1ReqCachedataWriteMerge }
    if i.st1MshrHit then o.hold { mshrHit := true }
    else if i.st1FlushCheckHit then o.hold { flushHit := true }
    else if !i.cachedirHit then
      if i.st1ReqWrWb || (i.st1ReqWrAuto && i.cfgDefaultWb) then st1StoreMissWb i o
      else st1StoreMissWt i o
    else if i.st1DirHitFetch then o.hold { dirFetch := true }
    else if i.st1ReqWrWb || (i.st1ReqWrAuto && i.st1DirHitWback) then st1StoreHitWb i o
    else st1StoreHitWt i o
  else o

/-- Request in stage 1. -/
def st1Request (c : Cfg) (i : PeIn) (o : PeOut) : PeOut :=
  if i.st1ReqValid then
    let o : PeOut := { o with rtabCheck := !i.st1ReqRtab && !i.st1Fence }
    if i.st1ReqAbort && !i.st1ReqRtab then
      { o with st1RspValid := i.st1ReqNeedRsp, st1RspAborted := true }
    else if i.st1ReqIsError then
      { o with
        st1RtabCommit := i.st1ReqRtab
        st1RspValid := i.st1ReqNeedRsp
        st1RspError := i.st1ReqNeedRsp
        evt := { o.evt with writeReq := i.st1ReqIsStore } }
    else if o.rtabCheck && i.rtabCheckHit then
      { o with st1RtabAllocAndLink := true, st1Nop := true }
    else if i.st1ReqIsCmoInval || i.st1ReqIsCmoFlush || i.st1ReqIsCmoFence then o.sendCmo
    else if i.st1ReqIsUncacheable then st1Uncacheable i o
    else st1Store c i (st1Load c i (st1Amo i (st1EccError c i o)))
  else o

/-! ## New request -/

/-- Data read of a stage-0 request, made in the cycle of the grant in low-latency mode only. -/
def st0CachedataRead (c : Cfg) (i : PeIn) : Bool :=
  c.lowLatency && (i.st0ReqIsLoad ||
    (c.eccEn && ((i.st0ReqIsStore && i.st0ReqIsPartial) ||
      (i.st0ReqIsAmo && i.st0ReqIsPartial) || (c.eccScrubberEn && i.st0ReqIsScrub))))

/-- Grants, in the order refill, replay table, scrubber, core. -/
def newRequest (c : Cfg) (i : PeIn) (o : PeOut) : PeOut :=
  let nop := o.st1Nop || o.st2Nop
  let coreReqReady := i.coreReqValid && !i.scrubReqValid && !i.rtabReqValid && !i.refillReqValid &&
    !i.rtabFull && !i.cmoBusy && !i.ucBusy && !i.errBusy && !i.rtabFence && !nop
  let scrubReqReady := i.scrubReqValid && !i.rtabReqValid && !i.refillReqValid &&
    !i.rtabFull && !i.cmoBusy && !i.ucBusy && !i.errBusy && !i.rtabFence && !nop
  let rtabReqReady := i.rtabReqValid && !i.refillReqValid && (!i.cmoBusy || i.cmoWait) &&
    !i.errBusy && !nop
  let refillReqReady := i.refillReqValid && (!i.cmoBusy || i.cmoWait) &&
    (!i.errBusy || i.errWait) && !i.st1ReqValid && !(i.st2MshrAlloc || i.st2DirUpdt.updt)
  let granted := (coreReqReady || rtabReqReady || scrubReqReady) && !i.st0ReqIsError
  let lookup := i.st0ReqIsLoad || i.st0ReqIsCmoPrefetch || i.st0ReqIsStore || i.st0ReqIsAmo
  { o with
    coreReqReady := coreReqReady
    scrubReqReady := scrubReqReady
    rtabReqReady := rtabReqReady
    refillReqReady := refillReqReady
    st1ReqValid := coreReqReady || rtabReqReady
    st0ReqCachedataRead := granted && !i.st0ReqIsUncacheable && st0CachedataRead c i
    st0ReqMshrCheck := granted && lookup && !i.st0ReqIsUncacheable
    st0ReqCachedirRead :=
      granted && (lookup || (c.eccEn && c.eccScrubberEn && i.st0ReqIsScrub)) }

/-! ## The engine -/

/-- The combinational process: nothing happens until the directory is initialised, nor while the
refill FSM or the flush controller owns the pipeline. -/
def hpdcacheCtrlComb (c : Cfg) (i : PeIn) : PeOut :=
  let o := PeOut.default i
  if !i.cachedirInitReady then o
  else if i.refillBusy then { o with evt := { o.evt with stallRefill := i.coreReqValid } }
  else if i.flushBusy then o
  else newRequest c i (st1Request c i (st2Pending i o))

/-- The protocol engine. -/
def hpdcacheCtrlPe (c : Cfg) (i : PeIn) : PeOut :=
  let o := hpdcacheCtrlComb c i
  { o with
    st1RtabAlloc := o.st1RtabAllocI && !i.st1ReqRtab
    st1RtabRback := o.st1RtabAllocI && i.st1ReqRtab
    st1RtabDeps := { o.st1RtabDeps with pendTrans := i.st1Fence }
    reqCachedataRead := o.st0ReqCachedataRead || o.st1ReqCachedataRead
    ucCoreRspReady := !i.refillCoreRspValid
    cmoCoreRspReady := !i.refillCoreRspValid
    evt := { o.evt with
      reqOnHold := o.st1RtabAllocI || o.st1RtabAllocAndLink
      rtabRollback := o.st1RtabAllocI && i.st1ReqRtab
      stall := i.coreReqValid && !o.coreReqReady } }

end Hpdcache
