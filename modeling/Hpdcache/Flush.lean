import Hpdcache.Lib.Arbiter
import Hpdcache.Lib.Fifo
import Hpdcache.Types

/-!
# Flush controller

The controller that reads a dirty line in the data RAM, chunk by chunk, and writes it back to the
memory. A line stays in the directory of the controller until the memory acknowledges its write.
-/

namespace Hpdcache

open Hw

inductive FlushFsm
  | idle
  | send
  deriving DecidableEq, Repr

/-- A write-back request. -/
structure FlushMeta (c : Cfg) where
  nline : Nline c
  id : Fin c.flushEntries

/-- A word of the memory in the resizer: its chunks and the reads left after the next one. -/
structure ResizerSlot where
  chunks : List (Nat → Byte)
  left : Nat

/-- The buffer between the width of the data RAM and the one of the memory. -/
structure Resizer where
  slots : List ResizerSlot
  /-- The chunks of the word being filled. -/
  part : List (Nat → Byte)

namespace Resizer

/-- Chunks written in a word, when the memory is wider than an access. -/
def wrWords (c : Cfg) : Nat := max 1 (c.memWords / c.accessWords)

/-- Reads of a word, when the memory is narrower than an access. -/
def rdWords (c : Cfg) : Nat := max 1 (c.accessWords / c.memWords)

def wok (c : Cfg) (q : Resizer) : Bool := decide (q.slots.length < c.flushFifoDepth)

/-- The words after a read. -/
def read (slots : List ResizerSlot) (r : Bool) : List ResizerSlot :=
  match slots with
  | [] => []
  | s :: rest =>
    if r then (if s.left = 0 then rest else { s with left := s.left - 1 } :: rest) else s :: rest

def step (c : Cfg) (q : Resizer) (w : Bool) (wlast : Bool) (data : Nat → Byte) (r : Bool) :
    Resizer :=
  let last := decide (q.part.length + 1 = wrWords c) || wlast
  if w && wok c q then
    if last then ⟨read q.slots r ++ [⟨q.part ++ [data], rdWords c - 1⟩], []⟩
    else ⟨read q.slots r, q.part ++ [data]⟩
  else ⟨read q.slots r, q.part⟩

end Resizer

structure Flush (c : Cfg) where
  validQ : Bits c.flushEntries
  dirQ : Fin c.flushEntries → Nline c
  fsmQ : FlushFsm
  wordQ : Nat
  setQ : Fin c.sets
  wayQ : Bits c.ways
  freeArb : FxArb c.flushEntries
  metaFifo : List (FlushMeta c)
  resizer : Resizer

structure FlushIn (c : Cfg) where
  alloc : Bool
  allocNline : Nline c
  allocWay : Bits c.ways
  readData : Nat → Byte
  memReqReady : Bool
  memDataReady : Bool
  ack : Option (Fin c.flushEntries)

/-- A read of the data RAM. -/
structure FlushRead (c : Cfg) where
  read : Bool
  set : Fin c.sets
  word : Nat
  way : Bits c.ways

namespace Flush

variable {c : Cfg}

def reset (f : Flush c) : Flush c :=
  { f with
    validQ := fun _ => false
    fsmQ := .idle
    wordQ := 0
    freeArb := FxArb.reset _
    metaFifo := []
    resizer := ⟨[], []⟩ }

def full (f : Flush c) : Bool := all f.validQ

def empty (f : Flush c) : Bool := !any f.validQ

def busy (f : Flush c) : Bool := decide (f.fsmQ ≠ .idle)

def metaWok (f : Flush c) : Bool := Fifo.wok 2 false f.metaFifo false

def resizerWok (f : Flush c) : Bool := f.resizer.wok c

def allocReady (f : Flush c) : Bool :=
  decide (f.fsmQ = .idle) && f.resizerWok && f.metaWok && !f.full

/-- An allocation is taken. -/
def doAlloc (f : Flush c) (i : FlushIn c) : Bool := i.alloc && f.allocReady

def freeBv (f : Flush c) : Bits c.flushEntries := f.freeArb.gnt fun k => !f.validQ k

def freePtr (f : Flush c) : Fin c.flushEntries := toBinary c.flushEntries_pos f.freeBv

/-- The line has been read to its end. -/
def eol (f : Flush c) : Bool := decide (f.wordQ = 0)

def nextWord (f : Flush c) : Nat := (f.wordQ + c.accessWords) % c.clWords

def dataRead (f : Flush c) (i : FlushIn c) : FlushRead c :=
  match f.fsmQ with
  | .idle =>
    if f.doAlloc i then ⟨true, i.allocNline.set, 0, i.allocWay⟩
    else ⟨false, f.setQ, f.wordQ, f.wayQ⟩
  | .send => ⟨f.resizerWok && !f.eol, f.setQ, f.wordQ, f.wayQ⟩

def ackBv (ack : Option (Fin c.flushEntries)) : Bits c.flushEntries := fun k => decide (ack = some k)

/-- The line that the acknowledge frees. -/
def ackNline (f : Flush c) (ack : Option (Fin c.flushEntries)) : Option (Nline c) := ack.map f.dirQ

/-- The line is being flushed, and not acknowledged in this cycle. -/
def checkHit (f : Flush c) (ack : Option (Fin c.flushEntries)) (n : Nline c) : Bool :=
  any fun k => f.validQ k && !ackBv ack k && decide (n = f.dirQ k)

def step (f : Flush c) (i : FlushIn c) : Flush c where
  validQ := fun k => setRst (f.validQ k) (f.freeBv k && f.doAlloc i) (ackBv i.ack k)
  dirQ := fun k => if f.doAlloc i = true ∧ k = f.freePtr then i.allocNline else f.dirQ k
  fsmQ :=
    match f.fsmQ with
    | .idle => if f.doAlloc i then .send else .idle
    | .send => if f.resizerWok && f.eol then .idle else .send
  wordQ :=
    match f.fsmQ with
    | .idle => if f.doAlloc i then f.nextWord else f.wordQ
    | .send => if f.resizerWok && !f.eol then f.nextWord else f.wordQ
  setQ := if f.doAlloc i then i.allocNline.set else f.setQ
  wayQ := if f.doAlloc i then i.allocWay else f.wayQ
  freeArb := f.freeArb.step (fun k => !f.validQ k) (f.doAlloc i)
  metaFifo :=
    Fifo.step 2 false f.metaFifo
      (if decide (f.fsmQ = .idle) && f.resizerWok && !f.full && i.alloc
        then some ⟨i.allocNline, f.freePtr⟩ else none)
      i.memReqReady
  resizer := f.resizer.step c (decide (f.fsmQ = .send)) f.eol i.readData i.memDataReady

end Flush

end Hpdcache
