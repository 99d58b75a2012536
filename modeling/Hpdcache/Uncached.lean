import Hpdcache.Types
import Hpdcache.Lib.Select

/-!
# Uncacheable and atomic requests

The handler of the uncacheable loads and stores and of the atomic operations. It keeps one request
at a time, sends it to the memory, and answers the requester; the result of an atomic operation on
a line that is in the cache is computed locally and written in the data RAM.

* `Uncached.fsmD` — the FSM.
* `Uncached.step` — one cycle.
-/

namespace Hpdcache

open Hw

inductive UcFsm
  | idle
  | memReq
  | memWReq
  | memWdataReq
  | memWaitRsp
  | coreRsp
  | amoWriteData
  deriving DecidableEq, Repr

/-- A request to the handler. -/
structure UcReq (c : Cfg) where
  op : ReqOp
  nline : Nline c
  off : Nat
  size : Nat
  data : Nat → Byte
  be : Nat → Bool
  uc : Bool
  sid : Nat
  tid : Nat
  needRsp : Bool
  hitWay : Bits c.ways
  oldData : Nat → Byte

/-- A read response of the memory, on the lane of the request. -/
structure UcReadResp where
  error : Bool
  data : Nat → Byte

structure UcWriteResp where
  error : Bool
  isAtomic : Bool

structure Uncached (c : Cfg) where
  fsmQ : UcFsm
  reqQ : UcReq c
  scRetcodeQ : Bool
  rspRdataQ : Nat → Byte
  rspErrorQ : Bool
  memRespWriteValidQ : Bool
  memRespReadValidQ : Bool
  lrscValidQ : Bool
  lrscNlineQ : Nline c
  lrscOffQ : Nat

structure UcIn (c : Cfg) where
  reqValid : Bool
  req : UcReq c
  lrscSnoop : Bool
  lrscSnoopNline : Nline c
  lrscSnoopOff : Nat
  lrscSnoopSize : Nat
  coreRspReady : Bool
  memReadReady : Bool
  memWriteReady : Bool
  memWdataReady : Bool
  memRead : Option UcReadResp
  memWrite : Option UcWriteResp
  cfgErrorOnCacheableAmo : Bool

/-- The atomic operations that read and write the memory. -/
def ReqOp.isAmoRmw : ReqOp → Bool
  | .amoLr | .amoSc => false
  | op => op.isAmo

namespace Uncached

variable {c : Cfg}

def reset (u : Uncached c) : Uncached c :=
  { u with
    fsmQ := .idle
    reqQ := { u.reqQ with
      op := .load, nline := ⟨0, ⟨0, c.sets_pos⟩⟩, off := 0, size := 0, uc := false,
      needRsp := false, hitWay := fun _ => false, oldData := fun _ => 0 }
    rspErrorQ := false
    lrscValidQ := false }

def ready (u : Uncached c) : Bool := decide (u.fsmQ = .idle)

def coreRspValid (u : Uncached c) : Bool := decide (u.fsmQ = .coreRsp)

def reqHit (u : Uncached c) : Bool := any u.reqQ.hitWay

/-! ## LR/SC reservation -/

/-- A store hits the reservation. -/
def lrscSnoopHit (u : Uncached c) (i : UcIn c) : Bool :=
  let words := if i.lrscSnoopSize < 3 then 1 else 2 ^ i.lrscSnoopSize / 8
  u.lrscValidQ && decide (u.lrscNlineQ = i.lrscSnoopNline ∧ i.lrscSnoopOff / 8 ≤ u.lrscOffQ / 8 ∧
    u.lrscOffQ / 8 < i.lrscSnoopOff / 8 + words)

/-- The request hits the reservation. -/
def lrscUcHit (u : Uncached c) (i : UcIn c) : Bool :=
  u.lrscValidQ && decide (u.lrscNlineQ = i.req.nline ∧ u.lrscOffQ / 8 = i.req.off / 8)

/-! ## Uncacheable request FSM -/

def rdError (i : UcIn c) : Bool := i.memRead.elim false UcReadResp.error

def wrError (i : UcIn c) : Bool := i.memWrite.elim false UcWriteResp.error

/-- An atomic operation on a cacheable address is refused. -/
def refused (i : UcIn c) : Bool := !i.req.uc && i.cfgErrorOnCacheableAmo

def idleD (u : Uncached c) (i : UcIn c) : UcFsm :=
  if i.reqValid then
    if i.req.op.isLoad || i.req.op.isStore then .memReq
    else if i.req.op.isAmoRmw || decide (i.req.op = .amoLr) then
      if refused i then .coreRsp else .memReq
    else if i.req.op = .amoSc then
      if refused i then .coreRsp
      else if u.lrscUcHit i then .memReq else .coreRsp
    else if i.req.needRsp then .coreRsp else .idle
  else .idle

def isRead (op : ReqOp) : Bool := op.isLoad || decide (op = .amoLr)

def isWrite (op : ReqOp) : Bool := op.isStore || decide (op = .amoSc) || op.isAmoRmw

def memReqD (u : Uncached c) (i : UcIn c) : UcFsm :=
  if isRead u.reqQ.op then (if i.memReadReady then .memWaitRsp else .memReq)
  else if isWrite u.reqQ.op then
    if i.memWriteReady && i.memWdataReady then .memWaitRsp
    else if i.memWriteReady then .memWdataReq
    else if i.memWdataReady then .memWReq
    else .memReq
  else .memReq

/-- Both responses of an atomic operation have been received. -/
def rmwDone (u : Uncached c) (i : UcIn c) : Bool :=
  (i.memRead.isSome && i.memWrite.isSome) || (i.memRead.isSome && u.memRespWriteValidQ) ||
    (u.memRespReadValidQ && i.memWrite.isSome)

/-- The store-conditional has been performed. -/
def scAtomic (i : UcIn c) : Bool := i.memWrite.elim false fun r => r.isAtomic && !r.error

def waitRspD (u : Uncached c) (i : UcIn c) : UcFsm :=
  let op := u.reqQ.op
  let answer : UcFsm := if u.reqQ.needRsp then .coreRsp else .idle
  if op.isLoad then (if i.memRead.isSome then answer else .memWaitRsp)
  else if op.isStore then (if i.memWrite.isSome then answer else .memWaitRsp)
  else if op = .amoLr then
    if i.memRead.isSome then
      (if u.reqQ.uc || rdError i || !u.reqHit then .coreRsp else .amoWriteData)
    else .memWaitRsp
  else if op = .amoSc then
    if i.memWrite.isSome then
      (if u.reqQ.uc || !scAtomic i || !u.reqHit then .coreRsp else .amoWriteData)
    else .memWaitRsp
  else if op.isAmoRmw then
    if u.rmwDone i then
      (if u.reqQ.uc || u.rspErrorQ || rdError i || wrError i || !u.reqHit then .coreRsp
        else .amoWriteData)
    else .memWaitRsp
  else .memWaitRsp

def fsmD (u : Uncached c) (i : UcIn c) : UcFsm :=
  match u.fsmQ with
  | .idle => u.idleD i
  | .memReq => u.memReqD i
  | .memWReq => if i.memWriteReady then .memWaitRsp else .memWReq
  | .memWdataReq => if i.memWdataReady then .memWaitRsp else .memWdataReq
  | .memWaitRsp => u.waitRspD i
  | .coreRsp => if i.coreRspReady then .idle else .coreRsp
  | .amoWriteData => .coreRsp

def rspErrorSet (u : Uncached c) (i : UcIn c) : Bool :=
  match u.fsmQ with
  | .idle =>
    i.reqValid &&
      (if i.req.op.isLoad || i.req.op.isStore then false
       else if i.req.op.isAmo then refused i
       else i.req.needRsp)
  | .memWaitRsp => u.reqQ.needRsp && (rdError i || wrError i)
  | _ => false

def wbufFlushAll (u : Uncached c) (i : UcIn c) : Bool := u.ready && i.reqValid

/-- A load-reserved that succeeds sets the reservation. -/
def lrscUcSet (u : Uncached c) (i : UcIn c) : Bool :=
  decide (u.fsmQ = .memWaitRsp ∧ u.reqQ.op = .amoLr) && i.memRead.isSome && !rdError i

def lrscUcReset (u : Uncached c) (i : UcIn c) : Bool :=
  match u.fsmQ with
  | .idle =>
    i.reqValid &&
      ((i.req.op.isAmoRmw && u.lrscUcHit i) || (decide (i.req.op = .amoSc) && !refused i))
  | .memWaitRsp => decide (u.reqQ.op = .amoLr) && i.memRead.isSome && rdError i
  | _ => false

/-! ## AMO unit -/

/-- Eight bytes as a double word. -/
def dword (b : Nat → Byte) : BitVec 64 :=
  BitVec.ofNat 64 ((List.range 8).foldr (fun k acc => (b k).toNat + 256 * acc) 0)

def byteOf (x : BitVec 64) (k : Nat) : Byte := x.extractLsb' (8 * k) 8

/-- The double word of a request that the address selects. -/
def amoReqData (u : Uncached c) (data : Nat → Byte) : BitVec 64 :=
  if 8 ≤ c.reqBytes then
    dword fun k => data (8 * (u.reqQ.off / 8 % (c.reqBytes / 8)) + k)
  else if u.reqQ.off / 4 % 2 = 1 then
    dword fun k => if k < 4 then 0 else data (k - 4)
  else dword fun k => if k < 4 then data k else 0

def prepareAmoDataOperand (data : BitVec 64) (size off : Nat) (signExtend : Bool) : BitVec 64 :=
  if size = 3 then data
  else
    let w : BitVec 32 := if off / 4 % 2 = 1 then data.extractLsb' 32 32 else data.extractLsb' 0 32
    if signExtend then w.signExtend 64 else w.zeroExtend 64

def prepareAmoDataResult (data : BitVec 64) (size : Nat) : BitVec 64 :=
  if size = 3 then data else (data.extractLsb' 0 32) ++ (data.extractLsb' 0 32)

def amoNeedSignExtend : ReqOp → Bool
  | .amoAdd | .amoMax | .amoMin => true
  | _ => false

def amo (op : ReqOp) (ld st : BitVec 64) : BitVec 64 :=
  match op with
  | .amoLr => ld
  | .amoSc => st
  | .amoSwap => st
  | .amoAdd => ld + st
  | .amoAnd => ld &&& st
  | .amoOr => ld ||| st
  | .amoXor => ld ^^^ st
  | .amoMax => if st.slt ld then ld else st
  | .amoMaxu => if st.ult ld then ld else st
  | .amoMin => if st.slt ld then st else ld
  | .amoMinu => if st.ult ld then st else ld
  | _ => 0

def amoResult (u : Uncached c) : BitVec 64 :=
  let prep := fun data => prepareAmoDataOperand (u.amoReqData data) u.reqQ.size u.reqQ.off
    (amoNeedSignExtend u.reqQ.op)
  amo u.reqQ.op (prep u.rspRdataQ) (prep u.reqQ.data)

/-- The write of the result in the data RAM. -/
def dataAmoWrite (u : Uncached c) : Bool := decide (u.fsmQ = .amoWriteData)

/-- With ECC a result narrower than a word is merged with the old data. -/
def dataAmoMerge (u : Uncached c) : Bool := c.eccEn && decide (2 ^ u.reqQ.size < c.wordBytes)

def dataAmoWriteData (u : Uncached c) : Nat → Byte :=
  fun b =>
    if c.eccEn && !u.reqQ.be b then u.reqQ.oldData b
    else byteOf (prepareAmoDataResult u.amoResult u.reqQ.size) (b % 8)

def dataAmoWriteBe (u : Uncached c) : Nat → Bool := fun b => u.reqQ.be b || u.dataAmoMerge

/-! ## Outputs -/

/-- The response register holds the data of the memory; a store-conditional answers its code. -/
def coreRsp (u : Uncached c) : Rsp where
  rdata :=
    if u.reqQ.op = .amoSc then
      fun b => byteOf
        (prepareAmoDataResult (BitVec.ofNat 64 u.scRetcodeQ.toNat) u.reqQ.size) (b % 8)
    else u.rspRdataQ
  sid := u.reqQ.sid
  tid := u.reqQ.tid
  error := u.rspErrorQ
  aborted := false

def memReadValid (u : Uncached c) : Bool := decide (u.fsmQ = .memReq) && isRead u.reqQ.op

def memWriteValid (u : Uncached c) : Bool :=
  (decide (u.fsmQ = .memReq) && isWrite u.reqQ.op) || decide (u.fsmQ = .memWReq)

def memWdataValid (u : Uncached c) : Bool :=
  (decide (u.fsmQ = .memReq) && isWrite u.reqQ.op) || decide (u.fsmQ = .memWdataReq)

/-- The operand sent to the memory: an AND is sent as a clear. -/
def memWdata (u : Uncached c) : Nat → Byte :=
  if u.reqQ.op = .amoAnd then fun b => ~~~(u.reqQ.data b) else u.reqQ.data

/-! ## One cycle -/

def step (u : Uncached c) (i : UcIn c) : Uncached c where
  fsmQ := u.fsmD i
  reqQ := if i.reqValid && u.ready then i.req else u.reqQ
  scRetcodeQ :=
    match u.fsmQ with
    | .idle =>
      if i.reqValid = true ∧ i.req.op = .amoSc ∧ refused i = false ∧ u.lrscUcHit i = false
      then true else u.scRetcodeQ
    | .memWaitRsp =>
      if decide (u.reqQ.op = .amoSc) && i.memWrite.isSome then !scAtomic i else u.scRetcodeQ
    | _ => u.scRetcodeQ
  rspRdataQ := i.memRead.elim u.rspRdataQ UcReadResp.data
  rspErrorQ := setRst u.rspErrorQ (u.rspErrorSet i) (u.coreRspValid && i.coreRspReady)
  memRespWriteValidQ :=
    match u.fsmQ with
    | .memReq => false
    | .memWaitRsp => u.memRespWriteValidQ || i.memWrite.isSome
    | _ => u.memRespWriteValidQ
  memRespReadValidQ :=
    match u.fsmQ with
    | .memReq => false
    | .memWdataReq => u.memRespReadValidQ || i.memRead.isSome
    | .memWaitRsp => u.memRespReadValidQ || i.memRead.isSome
    | _ => u.memRespReadValidQ
  lrscValidQ :=
    setRst u.lrscValidQ (u.lrscUcSet i)
      (u.lrscUcReset i || (i.lrscSnoop && u.lrscSnoopHit i))
  lrscNlineQ := if u.lrscUcSet i then u.reqQ.nline else u.lrscNlineQ
  lrscOffQ := if u.lrscUcSet i then u.reqQ.off else u.lrscOffQ

theorem not_read_of_isWrite {op : ReqOp} (h : isWrite op = true) : isRead op = false := by
  cases op <;> simp_all [isWrite, isRead, ReqOp.isStore, ReqOp.isLoad, ReqOp.isAmoRmw, ReqOp.isAmo]

/-- The request is kept as long as the handler is busy. -/
theorem reqQ_step {u : Uncached c} {i : UcIn c} (h : u.fsmQ ≠ .idle) :
    (u.step i).reqQ = u.reqQ := by
  have hready : u.ready = false := by simp [ready, h]
  show (if i.reqValid && u.ready then i.req else u.reqQ) = u.reqQ
  rw [hready, Bool.and_false]
  rfl

end Uncached

end Hpdcache
