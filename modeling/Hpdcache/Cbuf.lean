import Hpdcache.Types
import Hpdcache.Lib.Select

/-!
# Coalescing buffer

The write data of the write-back stores that missed, until they are merged with the refill.
-/

namespace Hpdcache

open Hw

structure CbufEntry where
  wdata : Nat → Byte
  be : Nat → Bool

structure Cbuf (c : Cfg) where
  entriesQ : Fin c.cbufEntries → CbufEntry
  validQ : Bits c.cbufEntries

namespace Cbuf

variable {c : Cfg}

def reset (c : Cfg) : Cbuf c where
  entriesQ := fun _ => ⟨fun _ => 0, fun _ => false⟩
  validQ := fun _ => false

def allocFull (b : Cbuf c) : Bool := all b.validQ

/-- The first free entry. -/
def allocId (b : Cbuf c) : Fin c.cbufEntries :=
  toIndex c.cbufEntries_pos fun k => !b.validQ k

def step (b : Cbuf c) (alloc : Bool) (entry : CbufEntry) (ack : Bool)
    (ackId : Fin c.cbufEntries) : Cbuf c where
  entriesQ := fun k => if alloc = true ∧ k = b.allocId then entry else b.entriesQ k
  validQ := fun k =>
    (alloc && decide (k = b.allocId)) || (b.validQ k && !(ack && decide (k = ackId)))

end Cbuf

end Hpdcache
