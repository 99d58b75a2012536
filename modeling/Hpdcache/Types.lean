import Hpdcache.Pkg
import Mathlib.Data.Nat.Basic

/-!
# Requests, lines and directory entries

The records that travel between the units: requests as the controller sees them, cachelines by
tag and set, directory entries and responses.
-/

namespace Hpdcache

abbrev Byte := BitVec 8

/-- A cacheline, by tag and set. -/
structure Nline (c : Cfg) where
  tag : Nat
  set : Fin c.sets
  deriving DecidableEq, Repr

/-- The MSHR set of a cache set. -/
def mshrSetOf (c : Cfg) (set : Fin c.sets) : Fin c.mshrSets :=
  ⟨set.val % c.mshrSets, Nat.mod_lt _ c.mshrSets_pos⟩

/-- A request of a requester. The offset is split in set and byte within the line; the data and
its byte enable are indexed by the lane of the request channel. -/
structure Req (c : Cfg) where
  addrTag : Nat
  addrSet : Fin c.sets
  addrOff : Nat
  wdata : Nat → Byte
  op : ReqOp
  be : Nat → Bool
  size : Nat
  sid : Nat
  tid : Nat
  needRsp : Bool
  physIndexed : Bool
  pma : Pma

/-- A request in the pipeline, with where it comes from. -/
structure CtrlReq (c : Cfg) where
  req : Req c
  fromRtab : Bool
  isError : Bool
  errScrubbing : Bool

namespace CtrlReq

variable {c : Cfg}

def nline (r : CtrlReq c) : Nline c := ⟨r.req.addrTag, r.req.addrSet⟩

/-- The word of the line that the request addresses. -/
def word (r : CtrlReq c) : Nat := r.req.addrOff / c.wordBytes

/-- The request is narrower than a word. -/
def isPartial (r : CtrlReq c) : Bool := decide (2 ^ r.req.size < c.wordBytes)

end CtrlReq

/-- A directory entry. -/
structure DirEntry where
  valid : Bool
  wback : Bool
  dirty : Bool
  fetch : Bool
  tag : Nat
  deriving DecidableEq, Repr, Inhabited

/-- The entry written at initialisation and by invalidations. -/
def DirEntry.zero : DirEntry := ⟨false, false, false, false, 0⟩

/-- A response to a requester. -/
structure Rsp where
  rdata : Nat → Byte
  sid : Nat
  tid : Nat
  error : Bool
  aborted : Bool

/-- Commands of the memory interface. -/
inductive MemCommand
  | read
  | write
  | atomic
  deriving DecidableEq, Repr

/-- Atomic commands of the memory interface. -/
inductive MemAtomic
  | add
  | clr
  | set
  | eor
  | smax
  | smin
  | umax
  | umin
  | swap
  | ldex
  | stex
  deriving DecidableEq, Repr

/-- Write policy hint, forced when the cache supports only one policy. -/
def forceHint (c : Cfg) (h : WrPolicyHint) : WrPolicyHint :=
  let h := if c.wtEn then h else .wb
  if c.wbEn then h else .wt

end Hpdcache
