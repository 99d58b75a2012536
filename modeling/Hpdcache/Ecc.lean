import Hpdcache.Lib.Select
import Hpdcache.Types
import Mathlib.Data.Nat.Log

/-!
# ECC recovery and scrubbing

The handler that walks the ways of a set after an error, to correct or to invalidate their
entries, and the scrubber that reads the cache in the background.

* `ErrFsm.comb` — the recovery FSM with its accesses to the RAMs.
* `Scrub.step` — the scrubber.
-/

namespace Hpdcache

open Hw

inductive ErrState
  | idle
  | check
  | waitMshr
  | inval
  | latch
  | correct
  deriving DecidableEq, Repr

structure ErrFsm (c : Cfg) where
  fsmQ : ErrState
  wayQ : Bits c.ways
  setQ : Fin c.sets
  dirUncQ : Bits c.ways
  dirCorQ : Bits c.ways
  datUncQ : Bits c.ways
  datCorQ : Bits c.ways
  datWordQ : Nat
  dirRdataQ : DirEntry
  datRdataQ : Nat → Byte

structure ErrIn (c : Cfg) where
  trigger : Bool
  set : Fin c.sets
  word : Nat
  dirUnc : Bits c.ways
  dirCor : Bits c.ways
  datUnc : Bits c.ways
  datCor : Bits c.ways
  mshrEmpty : Bool
  dirRdata : DirEntry
  datRdata : Nat → Byte

/-- Outputs of the recovery FSM. -/
structure ErrOut (c : Cfg) where
  fsmD : ErrState
  wayD : Bits c.ways
  dirRead : Bool := false
  dirWrite : Bool := false
  dirWdata : DirEntry := .zero
  datRead : Bool := false
  datWrite : Bool := false
  datWdata : Nat → Byte := fun _ => 0
  dirRdataWe : Bool := false
  datRdataWe : Bool := false

namespace ErrFsm

variable {c : Cfg}

def reset (e : ErrFsm c) : ErrFsm c :=
  { e with
    fsmQ := .idle
    wayQ := fun _ => false
    setQ := ⟨0, c.sets_pos⟩
    dirUncQ := fun _ => false
    dirCorQ := fun _ => false
    datUncQ := fun _ => false
    datCorQ := fun _ => false
    datWordQ := 0 }

/-- Without ECC there is no handler: it is never busy. -/
def busy (e : ErrFsm c) : Bool := c.eccEn && decide (e.fsmQ ≠ .idle)

def wait (e : ErrFsm c) : Bool := c.eccEn && decide (e.fsmQ = .waitMshr)

/-- The way under check is in the vector. -/
def msk (e : ErrFsm c) (v : Bits c.ways) : Bool := any fun w => v w && e.wayQ w

def errUnc (e : ErrFsm c) : Bool := any e.dirUncQ || any e.datUncQ

def lastWay (e : ErrFsm c) : Bool := e.wayQ ⟨c.ways - 1, c.pred_ways_lt⟩

def wayNext (e : ErrFsm c) : Bits c.ways :=
  if c.ways = 1 then fun _ => true
  else fun w => decide (∃ v : Fin c.ways, v.val + 1 = w.val ∧ e.wayQ v = true)

/-- Where to go after the last way. -/
def last (e : ErrFsm c) : ErrState := if e.errUnc then .waitMshr else .idle

def default (e : ErrFsm c) : ErrOut c where
  fsmD := e.fsmQ
  wayD := e.wayQ

/-- Go to the next way, or stop after the last one. -/
def next (e : ErrFsm c) (o : ErrOut c) : ErrOut c :=
  if e.lastWay then { o with fsmD := e.last } else { o with wayD := e.wayNext, fsmD := .check }

def combCheck (e : ErrFsm c) : ErrOut c :=
  let o := e.default
  if e.msk e.dirUncQ || e.msk e.datUncQ then { o with fsmD := .inval }
  else if e.msk e.dirCorQ || e.msk e.datCorQ then
    { o with dirRead := e.msk e.dirCorQ, datRead := e.msk e.datCorQ, fsmD := .latch }
  else if e.lastWay then { o with fsmD := e.last }
  else { o with wayD := e.wayNext }

def comb (e : ErrFsm c) (i : ErrIn c) : ErrOut c :=
  if c.eccEn then
    match e.fsmQ with
    | .idle =>
      if i.trigger then { e.default with fsmD := .check, wayD := fun w => decide (w.val = 0) }
      else e.default
    | .check => e.combCheck
    | .waitMshr => { e.default with fsmD := if i.mshrEmpty then .idle else .waitMshr }
    | .inval => e.next { e.default with dirWrite := true, datWrite := e.msk e.datUncQ }
    | .latch =>
      { e.default with
        dirRdataWe := e.msk e.dirCorQ, datRdataWe := e.msk e.datCorQ, fsmD := .correct }
    | .correct =>
      e.next { e.default with
        dirWrite := e.msk e.dirCorQ
        dirWdata := e.dirRdataQ
        datWrite := e.msk e.datCorQ
        datWdata := e.datRdataQ }
  else e.default

def step (e : ErrFsm c) (i : ErrIn c) : ErrFsm c :=
  let o := e.comb i
  let load := i.trigger && !e.busy
  if c.eccEn then
    { fsmQ := o.fsmD
      wayQ := o.wayD
      setQ := if load then i.set else e.setQ
      dirUncQ := if load then i.dirUnc else e.dirUncQ
      dirCorQ := if load then i.dirCor else e.dirCorQ
      datUncQ := if load then i.datUnc else e.datUncQ
      datCorQ := if load then i.datCor else e.datCorQ
      datWordQ := if load then i.word / c.accessWords * c.accessWords else e.datWordQ
      dirRdataQ := if o.dirRdataWe then i.dirRdata else e.dirRdataQ
      datRdataQ := if o.datRdataWe then i.datRdata else e.datRdataQ }
  else e

end ErrFsm

/-! ## Scrubber -/

inductive ScrubState
  | idle
  | check
  | wait
  deriving DecidableEq, Repr

structure Scrub (c : Cfg) where
  fsmQ : ScrubState
  setQ : Fin c.sets
  chunkQ : Nat
  waitQ : Nat

structure ScrubIn where
  ready : Bool
  cfgEnable : Bool
  cfgRestart : Bool
  cfgPeriod : Nat
  deriving DecidableEq

namespace Scrub

variable {c : Cfg}

def reset (c : Cfg) : Scrub c where
  fsmQ := .idle
  setQ := ⟨0, c.sets_pos⟩
  chunkQ := 0
  waitQ := 0

def chunks (c : Cfg) : Nat := c.clWords / c.accessWords

def reqValid (s : Scrub c) : Bool := c.eccScrubberEn && decide (s.fsmQ = .check)

/-- A read of the whole set, at the chunk under scrub. -/
def req (s : Scrub c) : Req c where
  addrTag := 0
  addrSet := s.setQ
  addrOff := s.chunkQ * c.accessBytes % c.clBytes
  wdata := fun _ => 0
  op := .load
  be := fun _ => false
  size := Nat.clog 2 c.accessBytes
  sid := 0
  tid := 0
  needRsp := false
  physIndexed := false
  pma := ⟨false, .auto⟩

def lastSet (s : Scrub c) : Bool := decide (s.setQ.val + 1 = c.sets)

def lastChunk (s : Scrub c) : Bool := decide (s.chunkQ + 1 = chunks c)

def lastAccess (s : Scrub c) : Bool := s.lastSet && s.lastChunk

/-- Cycles to wait between two reads. The shift has 32 bits: from there on nothing is left of it,
and the period is the largest number of 64 bits. -/
def period (i : ScrubIn) : Nat := if i.cfgPeriod < 32 then 2 ^ i.cfgPeriod - 1 else 2 ^ 64 - 1

/-- The event that reports the end of a pass. It is raised after a wait only. -/
def evtComplete (s : Scrub c) (i : ScrubIn) : Bool :=
  c.eccScrubberEn && decide (s.fsmQ = .wait) && i.cfgEnable && decide (s.waitQ = period i) &&
    s.lastAccess

/-- Start again from the first set. -/
def restart (s : Scrub c) (i : ScrubIn) : Scrub c :=
  if i.cfgRestart then { s with setQ := ⟨0, c.sets_pos⟩, chunkQ := 0, fsmQ := .check }
  else { s with fsmQ := .idle }

def checkStep (s : Scrub c) (i : ScrubIn) : Scrub c :=
  let s' := { s with
    setQ := if s.lastSet then ⟨0, c.sets_pos⟩ else ⟨(s.setQ.val + 1) % c.sets, Nat.mod_lt _ c.sets_pos⟩
    chunkQ := if s.lastChunk then 0 else s.chunkQ + 1 }
  if !i.cfgEnable then { s' with fsmQ := .idle }
  else if s.lastAccess then s'.restart i
  else if period i ≠ 0 then { s' with waitQ := 0, fsmQ := .wait }
  else s'

def waitStep (s : Scrub c) (i : ScrubIn) : Scrub c :=
  let s' := { s with waitQ := (s.waitQ + 1) % 2 ^ 64 }
  if !i.cfgEnable then { s' with fsmQ := .idle }
  else if s.waitQ = period i then
    (if s.lastAccess then s'.restart i else { s' with fsmQ := .check })
  else s'

def step (s : Scrub c) (i : ScrubIn) : Scrub c :=
  match s.fsmQ with
  | .idle =>
    if i.cfgEnable then { s with setQ := ⟨0, c.sets_pos⟩, chunkQ := 0, fsmQ := .check } else s
  | .check => if i.ready then s.checkStep i else s
  | .wait => s.waitStep i

end Scrub

end Hpdcache
