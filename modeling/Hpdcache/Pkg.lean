import Mathlib.Algebra.Group.Nat.Defs
import Mathlib.Tactic.Common

/-!
# Configuration, operations and decoding

The package of the cache: the parameters that its units read, the operations a requester can
issue, the functions that decode them, the write-policy hint, and the dependency bits that the
replay table keeps for a request on hold.

* `Cfg` — the user parameters. Every depth and every number of sets or ways is positive, and the
  number of MSHR sets divides the number of cache sets, as the address slicing of the
  MSHR lookup needs.
* `ReqOp` — the defined encodings of `hpdcache_req_op_t`.
-/

namespace Hpdcache

/-- Victim selection policy. -/
inductive VictimSel
  | random
  | plru
  deriving DecidableEq, Repr

/-- User parameters of the cache. -/
structure Cfg where
  nRequesters : Nat
  wordBytes : Nat
  sets : Nat
  ways : Nat
  clWords : Nat
  reqWords : Nat
  accessWords : Nat
  dataWaysPerRamWord : Nat
  victimSel : VictimSel
  mshrSets : Nat
  mshrWays : Nat
  cbufEntries : Nat
  refillCoreRspFeedthrough : Bool
  refillFifoDepth : Nat
  wbufDirEntries : Nat
  wbufDataEntries : Nat
  wbufWords : Nat
  wbufTimecntWidth : Nat
  rtabEntries : Nat
  flushEntries : Nat
  flushFifoDepth : Nat
  memWords : Nat
  wtEn : Bool
  wbEn : Bool
  lowLatency : Bool
  eccEn : Bool
  eccScrubberEn : Bool
  nRequesters_pos : 0 < nRequesters
  wordBytes_eq : wordBytes = 4 ∨ wordBytes = 8
  sets_pos : 0 < sets
  ways_pos : 0 < ways
  reqWords_pos : 0 < reqWords
  accessWords_pos : 0 < accessWords
  clWords_gt : 1 < clWords
  reqWords_dvd : reqWords ∣ accessWords
  accessWords_dvd : accessWords ∣ clWords
  dataWaysPerRamWord_pos : 0 < dataWaysPerRamWord
  dataWaysPerRamWord_dvd : dataWaysPerRamWord ∣ ways
  mshrSets_pos : 0 < mshrSets
  mshrSets_dvd : mshrSets ∣ sets
  mshrWays_pos : 0 < mshrWays
  cbufEntries_pos : 0 < cbufEntries
  wbufDirEntries_pos : 0 < wbufDirEntries
  wbufDataEntries_pos : 0 < wbufDataEntries
  wbufWords_pos : 0 < wbufWords
  wbufWords_dvd : reqWords * wbufWords ∣ clWords
  rtabEntries_pos : 0 < rtabEntries
  flushEntries_pos : 0 < flushEntries
  flushFifoDepth_pos : 0 < flushFifoDepth
  memWords_pos : 0 < memWords
  memWords_dvd : memWords ∣ clWords
  policy_en : wtEn = true ∨ wbEn = true
  ecc_lowLatency : eccEn = true → lowLatency = true

namespace Cfg

variable (c : Cfg)

theorem wordBytes_pos : 0 < c.wordBytes := by
  rcases c.wordBytes_eq with h | h <;> omega

theorem clWords_pos : 0 < c.clWords := Nat.lt_trans Nat.one_pos c.clWords_gt

/-- Bytes of a cacheline. -/
def clBytes : Nat := c.clWords * c.wordBytes

/-- Bytes of a request data channel. -/
def reqBytes : Nat := c.reqWords * c.wordBytes

/-- Bytes of the data RAM that are read or written together. -/
def accessBytes : Nat := c.accessWords * c.wordBytes

theorem reqBytes_pos : 0 < c.reqBytes := Nat.mul_pos c.reqWords_pos c.wordBytes_pos

/-- An access is a number of words of a request. -/
theorem accessBytes_eq : c.accessBytes = c.reqBytes * (c.accessWords / c.reqWords) := by
  rw [accessBytes, reqBytes, Nat.mul_right_comm, Nat.mul_div_cancel' c.reqWords_dvd]

/-- Bytes of a write-buffer entry. -/
def wbufBytes : Nat := c.wbufWords * c.reqBytes

theorem pred_ways_lt : c.ways - 1 < c.ways := Nat.sub_lt c.ways_pos Nat.one_pos

end Cfg

theorem Cfg.policy_wt (wbEn : Bool) : true = true ∨ wbEn = true := .inl rfl

theorem Cfg.latency_noEcc (lowLatency : Bool) : false = true → lowLatency = true := nofun

theorem Cfg.latency_ecc : true = true → true = true := id

/-- A small cache, on which the definitions are evaluated. -/
def Cfg.small (wtEn wbEn lowLatency eccEn : Bool) (h : wtEn = true ∨ wbEn = true)
    (hecc : eccEn = true → lowLatency = true) : Cfg where
  nRequesters := 1
  wordBytes := 8
  sets := 2
  ways := 2
  clWords := 2
  reqWords := 1
  accessWords := 2
  dataWaysPerRamWord := 1
  victimSel := .plru
  mshrSets := 2
  mshrWays := 2
  cbufEntries := 1
  refillCoreRspFeedthrough := true
  refillFifoDepth := 2
  wbufDirEntries := 2
  wbufDataEntries := 2
  wbufWords := 1
  wbufTimecntWidth := 3
  rtabEntries := 4
  flushEntries := 2
  flushFifoDepth := 2
  memWords := 2
  wtEn := wtEn
  wbEn := wbEn
  lowLatency := lowLatency
  eccEn := eccEn
  eccScrubberEn := false
  nRequesters_pos := by decide
  wordBytes_eq := by decide
  sets_pos := by decide
  ways_pos := by decide
  reqWords_pos := by decide
  accessWords_pos := by decide
  clWords_gt := by decide
  reqWords_dvd := by decide
  accessWords_dvd := by decide
  dataWaysPerRamWord_pos := by decide
  dataWaysPerRamWord_dvd := by decide
  mshrSets_pos := by decide
  mshrSets_dvd := by decide
  mshrWays_pos := by decide
  cbufEntries_pos := by decide
  wbufDirEntries_pos := by decide
  wbufDataEntries_pos := by decide
  wbufWords_pos := by decide
  wbufWords_dvd := by decide
  rtabEntries_pos := by decide
  flushEntries_pos := by decide
  flushFifoDepth_pos := by decide
  memWords_pos := by decide
  memWords_dvd := by decide
  policy_en := h
  ecc_lowLatency := hecc

/-! ## Operations -/

/-- Operation codes of the requester interface. -/
inductive ReqOp
  | load
  | store
  | amoLr
  | amoSc
  | amoSwap
  | amoAdd
  | amoAnd
  | amoOr
  | amoXor
  | amoMax
  | amoMaxu
  | amoMin
  | amoMinu
  | cmoFence
  | cmoPrefetch
  | cmoInvalNline
  | cmoInvalAll
  | cmoFlushNline
  | cmoFlushAll
  | cmoFlushInvalNline
  | cmoFlushInvalAll
  deriving DecidableEq, Repr

namespace ReqOp

def isLoad : ReqOp → Bool
  | load => true
  | _ => false

def isStore : ReqOp → Bool
  | store => true
  | _ => false

def isAmo : ReqOp → Bool
  | amoLr | amoSc | amoSwap | amoAdd | amoAnd | amoOr | amoXor
  | amoMax | amoMaxu | amoMin | amoMinu => true
  | _ => false

def isCmoInval : ReqOp → Bool
  | cmoInvalNline | cmoInvalAll => true
  | _ => false

def isCmoFlush : ReqOp → Bool
  | cmoFlushNline | cmoFlushAll | cmoFlushInvalNline | cmoFlushInvalAll => true
  | _ => false

def isCmoFence : ReqOp → Bool
  | cmoFence => true
  | _ => false

def isCmoPrefetch : ReqOp → Bool
  | cmoPrefetch => true
  | _ => false

def isCmo (op : ReqOp) : Bool :=
  op.isCmoFlush || op.isCmoFence || op.isCmoInval || op.isCmoPrefetch

end ReqOp

/-- Write policy hint of a request. -/
inductive WrPolicyHint
  | auto
  | wb
  | wt
  deriving DecidableEq, Repr

/-- Physical memory attributes of a request. -/
structure Pma where
  uncacheable : Bool
  wrPolicyHint : WrPolicyHint
  deriving DecidableEq, Repr

/-- Dependency bits that a replay-table entry waits for. -/
structure RtabDeps where
  mshrHit : Bool := false
  mshrFull : Bool := false
  mshrReady : Bool := false
  writeMiss : Bool := false
  wbufHit : Bool := false
  wbufNotReady : Bool := false
  dirUnavailable : Bool := false
  dirFetch : Bool := false
  flushHit : Bool := false
  flushNotReady : Bool := false
  pendTrans : Bool := false
  deriving DecidableEq, Repr

end Hpdcache
