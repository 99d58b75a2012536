import Hpdcache.Cbuf
import Hpdcache.Lib.Fifo
import Hpdcache.Mshr

/-!
# Miss handler

The two FSMs around the MSHR: one sends the read of a miss to the memory, the other takes the
responses and the invalidations of the network, asks for the pipeline, and writes the line in the
data RAM, chunk by chunk, and then its entry in the directory.

* `MissHandler.refillComb` — the refill FSM.
* `MissHandler.step` — one cycle.
-/

namespace Hpdcache

open Hw

inductive MissReqFsm
  | idle
  | send
  deriving DecidableEq, Repr

inductive RefillFsm
  | idle
  | write
  | writeDir
  | inval
  deriving DecidableEq, Repr

/-- A response of the memory with all its data, or an invalidation of the network. -/
structure MissResp (c : Cfg) where
  rError : Bool
  rSet : Fin c.mshrSets
  rWay : Fin c.mshrWays
  isInval : Bool
  invalNline : Nline c
  data : Nat → Byte

structure MissHandler (c : Cfg) where
  mshr : Mshr c
  cbuf : Cbuf c
  reqFsmQ : MissReqFsm
  allocWayQ : Fin c.mshrWays
  allocNlineQ : Nline c
  refillFsmQ : RefillFsm
  refillSetQ : Fin c.sets
  refillTagQ : Nat
  refillWayQ : Fin c.ways
  refillSidQ : Nat
  refillTidQ : Nat
  refillCntQ : Nat
  refillNeedRspQ : Bool
  refillIsPrefetchQ : Bool
  refillWbackQ : Bool
  refillDirtyQ : Bool
  refillDirtyWdataQ : Nat → Byte
  refillDirtyBeQ : Nat → Bool
  refillCoreRspWordQ : Nat
  respFifo : List (MissResp c)
  coreRspBuf : List Rsp

/-- A read of the memory. -/
structure MissReq (c : Cfg) where
  nline : Nline c
  set : Fin c.mshrSets
  way : Fin c.mshrWays

/-- Inputs of the miss handler. -/
structure MissIn (c : Cfg) where
  check : Bool
  checkSet : Fin c.sets
  alloc : Bool
  allocCs : Bool
  allocNline : Nline c
  allocTid : Nat
  allocSid : Nat
  allocWord : Nat
  allocVictimWay : Bits c.ways
  allocNeedRsp : Bool
  allocIsPrefetch : Bool
  allocWback : Bool
  allocDirty : Bool
  allocWdata : Nat → Byte
  allocBe : Nat → Bool
  refillReqReady : Bool
  invalHit : Bool
  cfgPrefetchUpdtSelVictim : Bool
  memReqReady : Bool
  memResp : Option (MissResp c)

/-- Outputs of the refill FSM. -/
structure RefillOut (c : Cfg) where
  updtSelVictim : Bool := false
  set : Fin c.sets
  way : Fin c.ways
  dirty : Bool := false
  writeDir : Bool := false
  writeData : Bool := false
  updtRtab : Bool := false
  cntD : Nat
  dirtyWdata : Nat → Byte
  dirtyBe : Nat → Bool
  dirtyValid : Bool := false
  invalCheckDir : Bool := false
  invalWriteDir : Bool := false
  coreRspValid : Bool := false
  coreRspSid : Nat := 0
  coreRspTid : Nat := 0
  coreRspError : Bool := false
  coreRspWord : Nat := 0
  metaR : Bool := false
  ackCs : Bool := false
  ack : Bool := false
  fsmD : RefillFsm

namespace MissHandler

variable {c : Cfg}

def reset (m : MissHandler c) : MissHandler c :=
  { m with
    mshr := m.mshr.reset
    cbuf := Cbuf.reset c
    reqFsmQ := .idle
    refillFsmQ := .idle
    respFifo := []
    coreRspBuf := [] }

/-! ## Miss request FSM -/

def allocReady (m : MissHandler c) : Bool := decide (m.reqFsmQ = .idle)

/-- The request to the memory, if any. -/
def memReq (m : MissHandler c) : Option (MissReq c) :=
  match m.reqFsmQ with
  | .idle => none
  | .send => some ⟨m.allocNlineQ, Mshr.setOf m.allocNlineQ, m.allocWayQ⟩

def reqFsmD (m : MissHandler c) (i : MissIn c) : MissReqFsm :=
  match m.reqFsmQ with
  | .idle => if i.alloc then .send else .idle
  | .send => if i.memReqReady then .idle else .send

/-! ## Refill FSM -/

/-- The word at the head of the response buffer, or an arbitrary one when there is none. -/
def head (m : MissHandler c) : MissResp c :=
  m.respFifo.headD
    ⟨false, ⟨0, c.mshrSets_pos⟩, ⟨0, c.mshrWays_pos⟩, false, ⟨0, ⟨0, c.sets_pos⟩⟩, fun _ => 0⟩

def metaRok (m : MissHandler c) : Bool := !m.respFifo.isEmpty

def refillReqValid (m : MissHandler c) : Bool :=
  decide (m.refillFsmQ = .idle) && m.metaRok

def refillBusy (m : MissHandler c) : Bool := decide (m.refillFsmQ ≠ .idle)

/-- No pending miss: the MSHR is empty and the last response has been processed. -/
def empty (m : MissHandler c) : Bool := m.mshr.empty && !m.refillBusy

def refillIsError (m : MissHandler c) : Bool := m.head.rError

def refillNline (m : MissHandler c) : Nline c := ⟨m.refillTagQ, m.refillSetQ⟩

/-- The cache set of the entry that the head of the response buffer acknowledges. -/
def ackCacheSet (m : MissHandler c) : Fin c.sets := m.mshr.cacheSetQ m.head.rSet m.head.rWay

def ackCbufEntry (m : MissHandler c) : CbufEntry :=
  if c.wbEn then m.cbuf.entriesQ m.mshr.ackEntry.cbufId else ⟨fun _ => 0, fun _ => false⟩

/-- The word of the last chunk of a refill. -/
def refillLastChunkWord (c : Cfg) : Nat := c.clWords - c.accessWords

def refillDefault (m : MissHandler c) : RefillOut c where
  set := ⟨0, c.sets_pos⟩
  way := ⟨0, c.ways_pos⟩
  cntD := m.refillCntQ
  dirtyWdata := m.refillDirtyWdataQ
  dirtyBe := m.refillDirtyBeQ
  fsmD := m.refillFsmQ

/-- Wait for a response, and for the pipeline. -/
def refillIdle (m : MissHandler c) (i : MissIn c) : RefillOut c :=
  let o := m.refillDefault
  if m.metaRok then
    let o := { o with ackCs := !m.head.isInval }
    if i.refillReqReady then
      let o := { o with set := m.ackCacheSet }
      if m.head.isInval then { o with invalCheckDir := true, fsmD := .inval }
      else { o with ack := true, cntD := 0, fsmD := .write }
    else o
  else o

/-- The first chunk: the MSHR entry is read in the RAM, the registers are not loaded yet. -/
def refillFirst (m : MissHandler c) : RefillOut c :=
  let e := m.mshr.ackEntry
  let here := decide (e.wordIdx / c.accessWords = 0)
  { m.refillDefault with
    coreRspValid := here && e.needRsp
    dirtyValid := here && e.dirty
    coreRspSid := e.srcId
    coreRspTid := e.reqId
    coreRspError := m.refillIsError
    coreRspWord := e.wordIdx / c.reqWords
    set := m.ackCacheSet
    way := e.victimWayIdx
    dirty := e.dirty
    dirtyWdata := m.ackCbufEntry.wdata
    dirtyBe := m.ackCbufEntry.be }

def refillNext (m : MissHandler c) : RefillOut c :=
  let here :=
    decide (m.refillCoreRspWordQ / c.accessWords = m.refillCntQ / c.accessWords)
  { m.refillDefault with
    coreRspValid := here && m.refillNeedRspQ
    dirtyValid := here && m.refillDirtyQ
    coreRspSid := m.refillSidQ
    coreRspTid := m.refillTidQ
    coreRspError := m.refillIsError
    coreRspWord := m.refillCoreRspWordQ / c.reqWords
    set := m.refillSetQ
    way := m.refillWayQ
    dirty := m.refillDirtyQ
    dirtyWdata := m.refillDirtyWdataQ
    dirtyBe := m.refillDirtyBeQ }

/-- The chunk at hand. -/
def refillChunk (m : MissHandler c) : RefillOut c :=
  if m.refillCntQ = 0 then m.refillFirst else m.refillNext

/-- Write the directory and consume the response. -/
def refillLast (m : MissHandler c) (i : MissIn c) (isPrefetch : Bool) (o : RefillOut c) :
    RefillOut c :=
  { o with
    writeDir := true
    updtSelVictim := !m.refillIsError && (!isPrefetch || i.cfgPrefetchUpdtSelVictim)
    updtRtab := true
    metaR := true
    fsmD := .idle }

def refillWrite (m : MissHandler c) (i : MissIn c) : RefillOut c :=
  let isPrefetch := if m.refillCntQ = 0 then m.mshr.ackEntry.isPrefetch else m.refillIsPrefetchQ
  let o :=
    { m.refillChunk with
      writeData := !m.refillIsError, cntD := m.refillCntQ + c.accessWords }
  if m.refillCntQ = refillLastChunkWord c then
    -- a line written in a single cycle waits one more cycle to write the directory
    if refillLastChunkWord c = 0 then { o with fsmD := .writeDir }
    else m.refillLast i isPrefetch o
  else o

def refillComb (m : MissHandler c) (i : MissIn c) : RefillOut c :=
  match m.refillFsmQ with
  | .idle => m.refillIdle i
  | .write => m.refillWrite i
  | .writeDir =>
    m.refillLast i m.refillIsPrefetchQ
      { m.refillDefault with set := m.refillSetQ, way := m.refillWayQ }
  | .inval => { m.refillDefault with invalWriteDir := i.invalHit, metaR := true, fsmD := .idle }

/-- The way of the refill, when it owns the pipeline. -/
def refillWay (m : MissHandler c) (o : RefillOut c) : Bits c.ways :=
  fun w => m.refillBusy && decide (w = o.way)

/-- The entry written at the end of a refill. An error invalidates the reserved way. -/
def refillDirEntry (m : MissHandler c) : DirEntry where
  valid := !m.refillIsError
  wback := !m.refillIsError && m.refillWbackQ
  dirty := !m.refillIsError && m.refillDirtyQ
  fetch := false
  tag := m.refillTagQ

/-- What the refill FSM says of the chunk, for the data and the response. -/
def refillLane (m : MissHandler c) : RefillOut c :=
  if m.refillFsmQ = .write then m.refillChunk else m.refillDefault

/-- The data of the chunk, with the coalesced store merged in. -/
def refillData (m : MissHandler c) : Nat → Byte :=
  let o := m.refillLane
  fun b =>
    if c.wbEn = true ∧ o.dirtyValid = true ∧ o.dirtyBe (b % c.reqBytes) = true ∧
        b / c.reqBytes = o.coreRspWord % (c.accessWords / c.reqWords)
    then o.dirtyWdata (b % c.reqBytes) else m.head.data (m.refillCntQ * c.wordBytes + b)

def refillCoreRsp (m : MissHandler c) : Option Rsp :=
  let o := m.refillLane
  if o.coreRspValid then
    some {
      rdata := fun b =>
        m.refillData (o.coreRspWord % (c.accessWords / c.reqWords) * c.reqBytes + b)
      sid := o.coreRspSid
      tid := o.coreRspTid
      error := o.coreRspError
      aborted := false }
  else none

/-- The response given to the core in this cycle. -/
def coreRspOut (m : MissHandler c) : Option Rsp :=
  Fifo.rdata c.refillCoreRspFeedthrough m.coreRspBuf m.refillCoreRsp

/-! ## One cycle -/

def memRespReady (m : MissHandler c) : Bool :=
  Fifo.wok c.refillFifoDepth false m.respFifo false

/-- The allocation reaches the MSHR only when the request FSM is idle. -/
def mshrIn (m : MissHandler c) (i : MissIn c) : MshrIn c where
  check := i.check
  checkSet := i.checkSet
  alloc := m.allocReady && i.alloc
  allocCs := m.allocReady && i.allocCs
  allocNline := i.allocNline
  allocEntry := {
    tag := i.allocNline.tag
    reqId := i.allocTid
    srcId := i.allocSid
    wordIdx := i.allocWord
    victimWayIdx := toBinary c.ways_pos i.allocVictimWay
    needRsp := i.allocNeedRsp
    isPrefetch := i.allocIsPrefetch
    wback := i.allocWback
    dirty := i.allocDirty
    cbufId := m.cbuf.allocId }
  ack := (m.refillComb i).ack
  ackCs := (m.refillComb i).ackCs
  ackSet := m.head.rSet
  ackWay := m.head.rWay

/-- The registers of the refill are loaded with its first chunk. -/
def refillLoad (m : MissHandler c) : Bool :=
  decide (m.refillFsmQ = .write ∧ m.refillCntQ = 0)

def step (m : MissHandler c) (i : MissIn c) : MissHandler c :=
  let o := m.refillComb i
  let e := m.mshr.ackEntry
  let load := m.refillLoad
  { mshr := m.mshr.step (m.mshrIn i)
    cbuf := m.cbuf.step (c.wbEn && i.allocDirty && (m.allocReady && i.alloc))
      ⟨i.allocWdata, i.allocBe⟩ (c.wbEn && o.dirty && load) e.cbufId
    reqFsmQ := m.reqFsmD i
    allocWayQ := if m.allocReady && i.alloc then m.mshr.allocWay i.allocNline else m.allocWayQ
    allocNlineQ := if m.allocReady && i.alloc then i.allocNline else m.allocNlineQ
    refillFsmQ := o.fsmD
    refillSetQ := if load then m.ackCacheSet else m.refillSetQ
    refillTagQ := if load then e.tag else m.refillTagQ
    refillWayQ := if load then e.victimWayIdx else m.refillWayQ
    refillSidQ := if load then e.srcId else m.refillSidQ
    refillTidQ := if load then e.reqId else m.refillTidQ
    refillCntQ := o.cntD
    refillNeedRspQ := if load then e.needRsp else m.refillNeedRspQ
    refillIsPrefetchQ := if load then e.isPrefetch else m.refillIsPrefetchQ
    refillWbackQ := if load then e.wback else m.refillWbackQ
    refillDirtyQ := if load then e.dirty else m.refillDirtyQ
    refillDirtyWdataQ := if load then m.ackCbufEntry.wdata else m.refillDirtyWdataQ
    refillDirtyBeQ := if load then m.ackCbufEntry.be else m.refillDirtyBeQ
    refillCoreRspWordQ := if load then e.wordIdx else m.refillCoreRspWordQ
    respFifo := Fifo.step c.refillFifoDepth false m.respFifo i.memResp o.metaR
    coreRspBuf := Fifo.step 1 c.refillCoreRspFeedthrough m.coreRspBuf m.refillCoreRsp true }

end MissHandler

end Hpdcache
