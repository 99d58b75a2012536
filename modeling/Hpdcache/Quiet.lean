import Hpdcache.Top

/-!
# A quiet cache

The cache with nothing in it and nothing to do, from which runs on concrete inputs start, and the
inputs of a cycle in which nothing is asked for.
-/

namespace Hpdcache

open Hw

variable (c : Cfg)

def Nline.zero : Nline c := ⟨0, ⟨0, c.sets_pos⟩⟩

def MshrEntry.zero : MshrEntry c where
  tag := 0
  reqId := 0
  srcId := 0
  wordIdx := 0
  victimWayIdx := ⟨0, c.ways_pos⟩
  needRsp := false
  isPrefetch := false
  wback := false
  dirty := false
  cbufId := ⟨0, c.cbufEntries_pos⟩

namespace Cache

def blankSt1 : St1 c where
  reqValidQ := false
  reqQ := ⟨Req.zero c, false, false, false⟩
  rtabPopTryPtrQ := ⟨0, c.rtabEntries_pos⟩

def blankSt2 : St2 c where
  mshrAllocQ := false
  mshrAllocNlineQ := Nline.zero c
  mshrAllocOffQ := 0
  mshrAllocSidQ := 0
  mshrAllocTidQ := 0
  mshrAllocWdataQ := fun _ => 0
  mshrAllocBeQ := fun _ => false
  mshrAllocNeedRspQ := false
  mshrAllocIsPrefetchQ := false
  mshrAllocWbackQ := false
  mshrAllocDirtyQ := false
  mshrAllocVictimWayQ := fun _ => false
  flushAllocQ := false
  flushAllocNlineQ := Nline.zero c
  flushAllocWayQ := fun _ => false
  dirUpdtQ := ⟨false, false, false, false, false⟩
  dirUpdtTagQ := 0
  dirUpdtSetQ := ⟨0, c.sets_pos⟩
  dirUpdtWayQ := fun _ => false

def blankMem : MemCtrl c where
  initQ := false
  initSetQ := ⟨0, c.sets_pos⟩
  dirRam := fun _ _ => .zero
  dirRentry := fun _ => .zero
  dirReqSetQ := ⟨0, c.sets_pos⟩
  dirReqWayQ := fun _ => false
  dirErrWayQ := fun _ => false
  victim := Victim.reset c
  dataBits := fun _ _ _ => 0
  dataCheck := fun _ _ _ => 0
  dataRentry := fun _ _ => 0
  dataReadReqWordIndexQ := 0
  dataFlushRowIndexQ := fun _ => false
  dataFlushReadQ := false

def blankMiss : MissHandler c where
  mshr := {
    validQ := fun _ _ => false
    cacheSetQ := fun _ _ => ⟨0, c.sets_pos⟩
    ram := fun _ _ => MshrEntry.zero c
    rentry := fun _ => MshrEntry.zero c
    ackWayQ := ⟨0, c.mshrWays_pos⟩
    checkCacheSetQ := ⟨0, c.sets_pos⟩ }
  cbuf := Cbuf.reset c
  reqFsmQ := .idle
  allocWayQ := ⟨0, c.mshrWays_pos⟩
  allocNlineQ := Nline.zero c
  refillFsmQ := .idle
  refillSetQ := ⟨0, c.sets_pos⟩
  refillTagQ := 0
  refillWayQ := ⟨0, c.ways_pos⟩
  refillSidQ := 0
  refillTidQ := 0
  refillCntQ := 0
  refillNeedRspQ := false
  refillIsPrefetchQ := false
  refillWbackQ := false
  refillDirtyQ := false
  refillDirtyWdataQ := fun _ => 0
  refillDirtyBeQ := fun _ => false
  refillCoreRspWordQ := 0
  respFifo := []
  coreRspBuf := []

def blankWbuf : Wbuf c where
  stateQ := fun _ => .free
  dirQ := fun _ => ⟨⟨0, c.wbufDataEntries_pos⟩, 0, ⟨Nline.zero c, 0⟩, false⟩
  dataValidQ := fun _ => false
  dataQ := fun _ => ⟨fun _ => 0, fun _ => false⟩
  dirFreeArb := FxArb.reset _
  dataFreeArb := FxArb.reset _
  pendArb := RrArb.reset _
  dataPtrFifo := []
  metaFifo := []

def blankFlush : Flush c where
  validQ := fun _ => false
  dirQ := fun _ => Nline.zero c
  fsmQ := .idle
  wordQ := 0
  setQ := ⟨0, c.sets_pos⟩
  wayQ := fun _ => false
  freeArb := FxArb.reset _
  metaFifo := []
  resizer := ⟨[], []⟩

def blankUc : Uncached c where
  fsmQ := .idle
  reqQ := {
    op := .load, nline := Nline.zero c, off := 0, size := 0, data := fun _ => 0
    be := fun _ => false, uc := false, sid := 0, tid := 0, needRsp := false
    hitWay := fun _ => false, oldData := fun _ => 0 }
  scRetcodeQ := false
  rspRdataQ := fun _ => 0
  rspErrorQ := false
  memRespWriteValidQ := false
  memRespReadValidQ := false
  lrscValidQ := false
  lrscNlineQ := Nline.zero c
  lrscOffQ := 0

def blankCmo : Cmo c where
  fsmQ := .idle
  opQ := .load
  nlineQ := Nline.zero c
  wayQ := fun _ => false
  setQ := ⟨0, c.sets_pos⟩
  flushReqValidQ := false
  flushReqSetQ := ⟨0, c.sets_pos⟩
  flushReqWayQ := fun _ => false
  flushReqInvalQ := false
  rspBuf := []
  rspSendQ := false
  flushFifo := []

def blankErr : ErrFsm c where
  fsmQ := .idle
  wayQ := fun _ => false
  setQ := ⟨0, c.sets_pos⟩
  dirUncQ := fun _ => false
  dirCorQ := fun _ => false
  datUncQ := fun _ => false
  datCorQ := fun _ => false
  datWordQ := 0
  dirRdataQ := .zero
  datRdataQ := fun _ => 0

def blankRtab : Rtab c where
  reqQ := fun _ => ⟨⟨Req.zero c, false, false, false⟩, ⟨0, c.ways_pos⟩⟩
  nextQ := fun _ => ⟨0, c.rtabEntries_pos⟩
  popStateQ := .head
  popNextQ := fun _ => false
  validQ := fun _ => false
  errorQ := fun _ => false
  headQ := fun _ => false
  tailQ := fun _ => false
  depsQ := fun _ => {}
  mshrFullArb := RrArb.reset _
  dirUnavailableArb := RrArb.reset _
  wbufRdArb := RrArb.reset _
  wbufWrArb := RrArb.reset _
  wbufArb := FxArb.reset _
  popArb := RrArb.reset _

/-- Every RAM and register at zero. -/
def blank : Cache c where
  st1 := blankSt1 c
  st2 := blankSt2 c
  rsp := ⟨false, false, false, 0, 0⟩
  dataReqReadWayQ := fun _ => false
  cmoSets := ⟨false, ⟨0, c.sets_pos⟩, ⟨0, c.sets_pos⟩, false, ⟨0, c.sets_pos⟩, ⟨0, c.sets_pos⟩⟩
  mem := blankMem c
  miss := blankMiss c
  wbuf := blankWbuf c
  flush := blankFlush c
  uc := blankUc c
  cmo := blankCmo c
  err := blankErr c
  scrub := Scrub.reset c
  rtab := blankRtab c

/-- A cache that holds nothing, with its directory initialised. -/
def quiet : Cache c := { blank c with mem := { blankMem c with initQ := true } }

end Cache

/-- Nothing is asked for, and the memory is ready. -/
def CacheIn.idle : CacheIn c where
  coreReqValid := false
  coreReq := Req.zero c
  coreReqAbort := false
  coreReqTag := 0
  coreReqPma := ⟨false, .auto⟩
  cfgEnable := true
  cfgPrefetchUpdtPlru := true
  cfgDefaultWb := false
  cfgRtabSingleEntry := false
  cfgErrorOnCacheableAmo := false
  cfgWbuf := ⟨0, false, false, false⟩
  cfgScrubEnable := false
  cfgScrubRestart := false
  cfgScrubPeriod := 0
  wbufFlush := false
  dirErrCor := fun _ => false
  dirErrUnc := fun _ => false
  datErrCor := fun _ => false
  datErrUnc := fun _ => false
  missReqReady := true
  missResp := none
  wbufReqReady := true
  wbufDataReady := true
  wbufAck := none
  flushReqReady := true
  flushDataReady := true
  flushAck := none
  ucReadReady := true
  ucWriteReady := true
  ucWdataReady := true
  ucRead := none
  ucWrite := none

def CoreIn.idle : CoreIn c where
  valid := fun _ => false
  req := fun _ => Req.zero c
  abort := fun _ => false
  tag := fun _ => 0
  pma := fun _ => ⟨false, .auto⟩

end Hpdcache
