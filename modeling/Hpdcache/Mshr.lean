import Hpdcache.Types
import Hpdcache.Lib.Select

/-!
# Miss status holding registers

The set-associative table of the outstanding misses. The validity and the cache set of an entry
are registers; the rest of the entry is in a RAM with a single port, whose last read is compared
with the tag of the request in stage 1 one cycle after the check.
-/

namespace Hpdcache

open Hw

/-- The part of an entry that is kept in the RAM. -/
structure MshrEntry (c : Cfg) where
  tag : Nat
  reqId : Nat
  srcId : Nat
  wordIdx : Nat
  victimWayIdx : Fin c.ways
  needRsp : Bool
  isPrefetch : Bool
  wback : Bool
  dirty : Bool
  cbufId : Fin c.cbufEntries

structure Mshr (c : Cfg) where
  validQ : Fin c.mshrSets → Fin c.mshrWays → Bool
  cacheSetQ : Fin c.mshrSets → Fin c.mshrWays → Fin c.sets
  ram : Fin c.mshrSets → Fin c.mshrWays → MshrEntry c
  rentry : Fin c.mshrWays → MshrEntry c
  ackWayQ : Fin c.mshrWays
  checkCacheSetQ : Fin c.sets

/-- Requests on the table. -/
structure MshrIn (c : Cfg) where
  check : Bool
  checkSet : Fin c.sets
  alloc : Bool
  allocCs : Bool
  allocNline : Nline c
  allocEntry : MshrEntry c
  ack : Bool
  ackCs : Bool
  ackSet : Fin c.mshrSets
  ackWay : Fin c.mshrWays

namespace Mshr

variable {c : Cfg}

def reset (m : Mshr c) : Mshr c :=
  { m with
    validQ := fun _ _ => false
    cacheSetQ := fun _ _ => ⟨0, c.sets_pos⟩
    ackWayQ := ⟨0, c.mshrWays_pos⟩
    checkCacheSetQ := ⟨0, c.sets_pos⟩ }

/-- The MSHR set of a cacheline. -/
def setOf (n : Nline c) : Fin c.mshrSets := mshrSetOf c n.set

/-- The first free way for an allocation. -/
def allocWay (m : Mshr c) (n : Nline c) : Fin c.mshrWays :=
  toIndex c.mshrWays_pos fun w => !m.validQ (setOf n) w

/-- No way is free in the set that was checked last. -/
def allocFull (m : Mshr c) : Bool :=
  !any fun w => !m.validQ (mshrSetOf c m.checkCacheSetQ) w

/-- An entry that matches the set checked last and the tag. -/
def hitWay (m : Mshr c) (tag : Nat) : Bits c.mshrWays :=
  fun w => m.validQ (mshrSetOf c m.checkCacheSetQ) w &&
    decide ((m.rentry w).tag = tag) &&
    decide (m.cacheSetQ (mshrSetOf c m.checkCacheSetQ) w = m.checkCacheSetQ)

def hit (m : Mshr c) (tag : Nat) : Bool := any (m.hitWay tag)

def empty (m : Mshr c) : Bool := decide (∀ s w, m.validQ s w = false)

/-- The entry read by the last acknowledge. -/
def ackEntry (m : Mshr c) : MshrEntry c := m.rentry m.ackWayQ

def addr (i : MshrIn c) : Fin c.mshrSets :=
  if i.ack then i.ackSet else if i.alloc then setOf i.allocNline else mshrSetOf c i.checkSet

def cs (i : MshrIn c) : Bool := i.check || i.allocCs || i.ackCs

def step (m : Mshr c) (i : MshrIn c) : Mshr c where
  validQ := fun s w =>
    setRst (m.validQ s w)
      (i.alloc && decide (s = setOf i.allocNline ∧ w = m.allocWay i.allocNline))
      (i.ack && decide (s = i.ackSet ∧ w = i.ackWay))
  cacheSetQ := fun s w =>
    if i.alloc = true ∧ s = setOf i.allocNline ∧ w = m.allocWay i.allocNline
    then i.allocNline.set else m.cacheSetQ s w
  ram := fun s w =>
    if cs i = true ∧ i.alloc = true ∧ s = addr i ∧ w = m.allocWay i.allocNline
    then i.allocEntry else m.ram s w
  rentry := if cs i && !i.alloc then m.ram (addr i) else m.rentry
  ackWayQ := if i.ack then i.ackWay else m.ackWayQ
  checkCacheSetQ := if i.check && !i.alloc then i.checkSet else m.checkCacheSetQ

end Mshr

end Hpdcache
