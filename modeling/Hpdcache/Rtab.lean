import Hpdcache.Lib.Arbiter
import Hpdcache.Types

/-!
# Replay table

The requests on hold, in linked lists by cacheline. A list is replayed from its head: the pop FSM
follows the list as long as its requests are committed, and returns to the arbiter of the heads
after the tail or after a rollback. Each entry waits for the dependencies it was recorded with.

* `Rtab.depsRst` — the dependencies that an event clears.
* `Rtab.step` — one cycle.
-/

namespace Hpdcache

open Hw

namespace RtabDeps

/-- Some dependency is pending. -/
def any (d : RtabDeps) : Bool :=
  d.mshrHit || d.mshrFull || d.mshrReady || d.writeMiss || d.wbufHit || d.wbufNotReady ||
    d.dirUnavailable || d.dirFetch || d.flushHit || d.flushNotReady || d.pendTrans

/-- Set and reset of registered dependencies. -/
def setRst (q set rst : RtabDeps) : RtabDeps where
  mshrHit := Hw.setRst q.mshrHit set.mshrHit rst.mshrHit
  mshrFull := Hw.setRst q.mshrFull set.mshrFull rst.mshrFull
  mshrReady := Hw.setRst q.mshrReady set.mshrReady rst.mshrReady
  writeMiss := Hw.setRst q.writeMiss set.writeMiss rst.writeMiss
  wbufHit := Hw.setRst q.wbufHit set.wbufHit rst.wbufHit
  wbufNotReady := Hw.setRst q.wbufNotReady set.wbufNotReady rst.wbufNotReady
  dirUnavailable := Hw.setRst q.dirUnavailable set.dirUnavailable rst.dirUnavailable
  dirFetch := Hw.setRst q.dirFetch set.dirFetch rst.dirFetch
  flushHit := Hw.setRst q.flushHit set.flushHit rst.flushHit
  flushNotReady := Hw.setRst q.flushNotReady set.flushNotReady rst.flushNotReady
  pendTrans := Hw.setRst q.pendTrans set.pendTrans rst.pendTrans

end RtabDeps

/-- A request on hold. -/
structure RtabEntry (c : Cfg) where
  req : CtrlReq c
  wayFetch : Fin c.ways

inductive PopTryState
  | head
  | next
  | nextWait
  deriving DecidableEq, Repr

structure Rtab (c : Cfg) where
  reqQ : Fin c.rtabEntries → RtabEntry c
  nextQ : Fin c.rtabEntries → Fin c.rtabEntries
  popStateQ : PopTryState
  popNextQ : Bits c.rtabEntries
  validQ : Bits c.rtabEntries
  errorQ : Bits c.rtabEntries
  headQ : Bits c.rtabEntries
  tailQ : Bits c.rtabEntries
  depsQ : Fin c.rtabEntries → RtabDeps
  mshrFullArb : RrArb c.rtabEntries
  dirUnavailableArb : RrArb c.rtabEntries
  wbufRdArb : RrArb c.rtabEntries
  wbufWrArb : RrArb c.rtabEntries
  wbufArb : FxArb 2
  popArb : RrArb c.rtabEntries

structure RtabIn (c : Cfg) where
  checkNline : Nline c
  alloc : Bool
  allocAndLink : Bool
  allocReq : RtabEntry c
  allocDeps : RtabDeps
  popTry : Bool
  popCommit : Bool
  popCommitPtr : Fin c.rtabEntries
  popRback : Bool
  popRbackPtr : Fin c.rtabEntries
  wbufHit : Bool
  wbufNotReady : Bool
  missReady : Bool
  refill : Bool
  refillIsError : Bool
  refillNline : Nline c
  refillWayIndex : Fin c.ways
  flushAckNline : Option (Nline c)
  flushReady : Bool
  noPendTrans : Bool

namespace Rtab

variable {c : Cfg}

def reset (r : Rtab c) : Rtab c :=
  { r with
    nextQ := fun _ => ⟨0, c.rtabEntries_pos⟩
    popStateQ := .head
    popNextQ := fun _ => false
    validQ := fun _ => false
    errorQ := fun _ => false
    headQ := fun _ => false
    tailQ := fun _ => false
    depsQ := fun _ => {}
    mshrFullArb := RrArb.reset _
    dirUnavailableArb := RrArb.reset _
    wbufRdArb := RrArb.reset _
    wbufWrArb := RrArb.reset _
    wbufArb := FxArb.reset _
    popArb := RrArb.reset _ }

/-! ## Global control signals -/

def nline (r : Rtab c) (k : Fin c.rtabEntries) : Nline c := (r.reqQ k).req.nline

def isRead (r : Rtab c) (k : Fin c.rtabEntries) : Bool :=
  (r.reqQ k).req.req.op.isLoad || (r.reqQ k).req.req.op.isCmoPrefetch

/-- Entries ready to be replayed. -/
def ready (r : Rtab c) : Bits c.rtabEntries := fun k => r.validQ k && r.headQ k && !(r.depsQ k).any

def freeAlloc (r : Rtab c) : Bits c.rtabEntries := prio fun k => !r.validQ k

def empty (r : Rtab c) : Bool := !any r.validQ

def full (r : Rtab c) (cfgSingleEntry : Bool) : Bool :=
  all r.validQ || (any r.validQ && cfgSingleEntry)

def fenceBv (r : Rtab c) : Bits c.rtabEntries := fun k => (r.depsQ k).pendTrans

def fence (r : Rtab c) : Bool := any r.fenceBv

def fenceOnly (r : Rtab c) : Bool := decide (∀ k, r.validQ k = r.fenceBv k)

/-! ## Check interface -/

def checkHitBv (r : Rtab c) (n : Nline c) : Bits c.rtabEntries :=
  fun k => r.validQ k && decide (n = r.nline k)

def checkHit (r : Rtab c) (n : Nline c) : Bool := any (r.checkHitBv n)

def matchCheckTail (r : Rtab c) (n : Nline c) : Bits c.rtabEntries :=
  fun k => r.checkHitBv n k && r.tailQ k

/-! ## Write buffer dependencies -/

/-- Head requests that wait for a line to leave the write buffer. -/
def wbufRdPending (r : Rtab c) : Bits c.rtabEntries :=
  fun k => r.validQ k && r.headQ k && (r.depsQ k).wbufHit

/-- Head requests that wait for a place in the write buffer. -/
def wbufWrPending (r : Rtab c) : Bits c.rtabEntries :=
  fun k => r.validQ k && r.headQ k && (r.depsQ k).wbufNotReady

def wbufRdGnt (r : Rtab c) : Bits c.rtabEntries := r.wbufRdArb.gnt r.wbufRdPending

def wbufWrGnt (r : Rtab c) : Bits c.rtabEntries := r.wbufWrArb.gnt r.wbufWrPending

def wbufPending (r : Rtab c) : Bits 2 := fun j => if j = 0 then any r.wbufRdGnt else any r.wbufWrGnt

def wbufGnt (r : Rtab c) : Bits 2 := r.wbufArb.gnt r.wbufPending

/-- The request that the write buffer looks up. -/
def wbufSel (r : Rtab c) : Bits c.rtabEntries :=
  if r.wbufGnt 0 then r.wbufRdGnt else if r.wbufGnt 1 then r.wbufWrGnt else fun _ => false

def wbufPtr (r : Rtab c) : Fin c.rtabEntries := toIndex c.rtabEntries_pos r.wbufSel

/-! ## Pop interface -/

def popGnt (r : Rtab c) : Bits c.rtabEntries := r.popArb.gnt r.ready

def popSel (r : Rtab c) : Bits c.rtabEntries :=
  match r.popStateQ with
  | .head => r.popGnt
  | .next => r.popNextQ
  | .nextWait => r.popNextQ

def popTryValid (r : Rtab c) : Bool :=
  match r.popStateQ with
  | .head => any r.ready
  | .next => true
  | .nextWait => true

def popTryPtr (r : Rtab c) : Fin c.rtabEntries := toIndex c.rtabEntries_pos r.popSel

/-- The request to replay. It is an error if a refill that it waited for was. -/
def popTryReq (r : Rtab c) : CtrlReq c :=
  { (r.reqQ r.popTryPtr).req with isError := any fun k => r.popSel k && r.errorQ k }

def popTryBv (r : Rtab c) (popTry : Bool) : Bits c.rtabEntries := fun k => r.popSel k && popTry

/-- The request being popped is not the last of its list. -/
def popMore (r : Rtab c) : Bool := any fun k => r.popSel k && !r.tailQ k

def popHead (r : Rtab c) (i : RtabIn c) : Bool :=
  decide (r.popStateQ = .head) && !i.popRback && r.popTryValid && i.popTry

def popStateD (r : Rtab c) (i : RtabIn c) : PopTryState :=
  match r.popStateQ with
  | .head => if r.popHead i && r.popMore then .next else .head
  | .next =>
    if i.popRback then .head
    else if i.popTry then (if r.popMore then .next else .head)
    else .nextWait
  | .nextWait => if i.popTry then (if r.popMore then .next else .head) else .nextWait

/-- The pop FSM goes to the next request of the list. -/
def popAdvance (r : Rtab c) (i : RtabIn c) : Bool :=
  match r.popStateQ with
  | .head => r.popHead i && r.popMore
  | .next => !i.popRback && i.popTry && r.popMore
  | .nextWait => i.popTry && r.popMore

/-! ## Update of the dependencies -/

def mshrSetEqual (x y : Nline c) : Bool := decide (mshrSetOf c x.set = mshrSetOf c y.set)

def waitersMshrFull (r : Rtab c) (i : RtabIn c) : Bits c.rtabEntries :=
  fun k => r.validQ k && (r.depsQ k).mshrFull && mshrSetEqual i.refillNline (r.nline k)

def waitersDirUnavailable (r : Rtab c) (i : RtabIn c) : Bits c.rtabEntries :=
  fun k => r.validQ k && (r.depsQ k).dirUnavailable && decide (i.refillNline.set = (r.nline k).set)

def waitersMshrFullGnt (r : Rtab c) (i : RtabIn c) : Bits c.rtabEntries :=
  r.mshrFullArb.gnt (r.waitersMshrFull i)

def waitersDirUnavailableGnt (r : Rtab c) (i : RtabIn c) : Bits c.rtabEntries :=
  r.dirUnavailableArb.gnt (r.waitersDirUnavailable i)

def depsRst (r : Rtab c) (i : RtabIn c) (k : Fin c.rtabEntries) : RtabDeps where
  wbufHit := r.wbufSel k && !i.wbufHit
  wbufNotReady := r.wbufSel k && !i.wbufNotReady
  mshrReady := i.missReady
  -- one waiter only is woken by a place in the MSHR or in the directory
  mshrFull := i.refill && r.waitersMshrFullGnt i k
  dirUnavailable := i.refill && r.waitersDirUnavailableGnt i k
  mshrHit := i.refill && decide (i.refillNline = r.nline k)
  writeMiss := i.refill && decide (i.refillNline = r.nline k)
  dirFetch := i.refill && decide (i.refillNline.set = (r.nline k).set) &&
    decide (i.refillWayIndex = (r.reqQ k).wayFetch)
  flushHit := decide (i.flushAckNline = some (r.nline k))
  flushNotReady := i.flushReady
  pendTrans := i.noPendTrans && r.fenceOnly

def rbackBv (i : RtabIn c) : Bits c.rtabEntries := fun k => i.popRback && decide (k = i.popRbackPtr)

def commitBv (i : RtabIn c) : Bits c.rtabEntries :=
  fun k => i.popCommit && decide (k = i.popCommitPtr)

/-- The free entry that an allocation takes. -/
def allocBv (r : Rtab c) (i : RtabIn c) : Bits c.rtabEntries :=
  fun k => r.freeAlloc k && (i.alloc || i.allocAndLink)

def depsSet (r : Rtab c) (i : RtabIn c) (k : Fin c.rtabEntries) : RtabDeps :=
  let a : RtabDeps := if r.allocBv i k then i.allocDeps else {}
  let b : RtabDeps := if rbackBv i k then i.allocDeps else {}
  { mshrHit := a.mshrHit || b.mshrHit
    mshrFull := a.mshrFull || b.mshrFull
    mshrReady := a.mshrReady || b.mshrReady
    writeMiss := a.writeMiss || b.writeMiss
    wbufHit := a.wbufHit || b.wbufHit
    wbufNotReady := a.wbufNotReady || b.wbufNotReady
    dirUnavailable := a.dirUnavailable || b.dirUnavailable
    dirFetch := a.dirFetch || b.dirFetch
    flushHit := a.flushHit || b.flushHit
    flushNotReady := a.flushNotReady || b.flushNotReady
    pendTrans := a.pendTrans || b.pendTrans }

/-- A request that waited for the refill of its own write miss gets the error of the refill. -/
def errorSet (r : Rtab c) (i : RtabIn c) (k : Fin c.rtabEntries) : Bool :=
  r.validQ k && (r.depsQ k).writeMiss && decide (i.refillNline = r.nline k) && i.refill &&
    i.refillIsError

/-! ## One cycle -/

def wbufReady (r : Rtab c) (i : RtabIn c) : Bool :=
  any fun k => r.popTryBv i.popTry k && (r.wbufRdGnt k || r.wbufWrGnt k)

def step (r : Rtab c) (i : RtabIn c) : Rtab c where
  reqQ := fun k => if r.allocBv i k || rbackBv i k then i.allocReq else r.reqQ k
  nextQ := fun k => if i.allocAndLink && r.matchCheckTail i.checkNline k
    then toIndex c.rtabEntries_pos r.freeAlloc else r.nextQ k
  popStateQ := r.popStateD i
  popNextQ := if r.popAdvance i then ofIndex (r.nextQ r.popTryPtr) else r.popNextQ
  validQ := fun k => setRst (r.validQ k) (r.allocBv i k) (commitBv i k)
  errorQ := fun k => setRst (r.errorQ k) (r.errorSet i k) (commitBv i k)
  headQ := fun k =>
    setRst (r.headQ k) ((r.freeAlloc k && i.alloc) || rbackBv i k)
      ((r.freeAlloc k && i.allocAndLink) || r.popTryBv i.popTry k)
  tailQ := fun k =>
    setRst (r.tailQ k) (r.allocBv i k) (r.matchCheckTail i.checkNline k && i.allocAndLink)
  depsQ := fun k => RtabDeps.setRst (r.depsQ k) (r.depsSet i k) (r.depsRst i k)
  mshrFullArb := r.mshrFullArb.step (r.waitersMshrFull i) i.refill
  dirUnavailableArb := r.dirUnavailableArb.step (r.waitersDirUnavailable i) i.refill
  wbufRdArb := r.wbufRdArb.step r.wbufRdPending (r.wbufGnt 0 && r.wbufReady i)
  wbufWrArb := r.wbufWrArb.step r.wbufWrPending (r.wbufGnt 1 && r.wbufReady i)
  wbufArb := r.wbufArb.step r.wbufPending (r.wbufReady i)
  popArb := r.popArb.step r.ready (r.popHead i)

end Rtab

end Hpdcache
