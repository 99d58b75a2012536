import Hpdcache.Cache
import Hpdcache.Lib.System
import Hpdcache.Indexing

/-!
# Hardware memory prefetcher

The stride engines, each with its configuration registers and its FSM, the round-robin arbiter
between them, and the wrapper that makes one requester of them.

**Addresses.** An engine computes a cacheline, and puts its set and its tag in a request that it
declares physically indexed. The wrapper rebuilds the request with a tag of zero, as for a request
whose tag follows in the next cycle.

**Responses.** The identifier of the transaction carries the index of the engine. It is cut to the
width of the identifier.

* `Hwpf.step` — one cycle of the wrapper.
* `Hwpf.Serves` — a request is one for the line of its engine, and its response goes back to it.
* `Hwpf.serves_run` — when the request of a reachable state is so.
-/

namespace Hpdcache

open Hw

/-! ## Configuration -/

/-- The parameters of the wrapper. -/
structure HwpfCfg where
  cache : Cfg
  engines : Nat
  snoopPorts : Nat
  setWidth : Nat
  tagWidth : Nat
  clOffsetWidth : Nat
  tidWidth : Nat
  sets_eq : cache.sets = 2 ^ setWidth
  engines_le : engines ≤ 16

namespace HwpfCfg

def nlineWidth (h : HwpfCfg) : Nat := h.setWidth + h.tagWidth

/-- A cacheline as the bits of its tag and of its set. -/
def nline (h : HwpfCfg) (n : BitVec h.nlineWidth) : Nline h.cache where
  tag := n.toNat / 2 ^ h.setWidth
  set := ⟨n.toNat % 2 ^ h.setWidth, by
    rw [h.sets_eq]
    exact Nat.mod_lt _ (Nat.two_pow_pos _)⟩

end HwpfCfg

/-- Base address configuration register. -/
structure StrideBase where
  baseCline : BitVec 58
  cycle : Bool
  rearm : Bool
  enable : Bool

/-- Parameters configuration register. -/
structure StrideParam where
  nblocks : BitVec 16
  nlines : BitVec 16
  stride : BitVec 32

/-- Throttle configuration register. -/
structure StrideThrottle where
  ninflight : BitVec 16
  nwait : BitVec 16

/-- A request of the prefetcher. The attributes are the bits of the record: those of the write
policy hint may encode none. -/
structure HwpfReq (c : Cfg) where
  addrSet : Fin c.sets
  addrOff : Nat
  wdata : Nat → Byte
  op : ReqOp
  be : Nat → Bool
  size : Nat
  sid : Nat
  tid : Nat
  needRsp : Bool
  physIndexed : Bool
  addrTag : Nat
  uncacheable : Bool
  io : Bool
  wrPolicyHint : BitVec 3

/-! ## An engine -/

inductive StrideFsm
  | idle
  | snoop
  | sendReq
  | wait
  | done
  | abort
  deriving DecidableEq, Repr

structure Stride (h : HwpfCfg) where
  stateQ : StrideFsm
  csrBaseQ : StrideBase
  csrParamQ : StrideParam
  csrThrottleQ : StrideThrottle
  shadowBaseQ : StrideBase
  shadowParamQ : StrideParam
  shadowThrottleQ : StrideThrottle
  requestNlineQ : BitVec h.nlineWidth
  nblocksCntQ : BitVec 16
  nlinesCntQ : BitVec 16
  nwaitCntQ : BitVec 16
  inflightCntQ : BitVec 16

structure StrideIn where
  csrBase : Option StrideBase
  csrParam : Option StrideParam
  csrThrottle : Option StrideThrottle
  snoopMatch : Bool
  reqReady : Bool
  rspValid : Bool

/-- Outputs of the FSM. -/
structure StrideOut (h : HwpfCfg) where
  reqValid : Bool := false
  inflightInc : Bool := false
  busy : Bool := false
  csrBaseUpdate : Bool := false
  nblocksCntD : BitVec 16
  nlinesCntD : BitVec 16
  nwaitCntD : BitVec 16
  shadowBaseD : StrideBase
  shadowParamD : StrideParam
  shadowThrottleD : StrideThrottle
  requestNlineD : BitVec h.nlineWidth
  stateD : StrideFsm

namespace Stride

variable {h : HwpfCfg}

/-- The throttle register of the configuration has no reset. -/
def reset (e : Stride h) : Stride h :=
  { e with
    stateQ := .idle
    csrBaseQ := ⟨0, false, false, false⟩
    csrParamQ := ⟨0, 0, 0⟩
    shadowBaseQ := ⟨0, false, false, false⟩
    shadowParamQ := ⟨0, 0, 0⟩
    shadowThrottleQ := ⟨0, 0⟩
    requestNlineQ := 0
    nblocksCntQ := 0
    nlinesCntQ := 0
    nwaitCntQ := 0
    inflightCntQ := 0 }

def incrementStride (e : Stride h) : BitVec h.nlineWidth :=
  e.shadowParamQ.stride.setWidth h.nlineWidth + 1

/-- The base cacheline, and the line that is snooped. -/
def baseNline (e : Stride h) : BitVec h.nlineWidth := e.shadowBaseQ.baseCline.setWidth h.nlineWidth

def isInflightMax (e : Stride h) : Bool :=
  !decide (e.shadowThrottleQ.ninflight = 0) && decide (e.shadowThrottleQ.ninflight ≤ e.inflightCntQ)

/-- The request of the engine. The identifiers are left to the wrapper, and the hint undriven. -/
def req (e : Stride h) : HwpfReq h.cache where
  addrSet := (h.nline e.requestNlineQ).set
  addrOff := 0
  wdata := fun _ => 0
  op := .cmoPrefetch
  be := fun _ => true
  size := 0
  sid := 0
  tid := 0
  needRsp := true
  physIndexed := true
  addrTag := (h.nline e.requestNlineQ).tag
  uncacheable := false
  io := false
  wrPolicyHint := 0

def default (e : Stride h) : StrideOut h where
  nblocksCntD := e.nblocksCntQ
  nlinesCntD := e.nlinesCntQ
  nwaitCntD := e.nwaitCntQ
  shadowBaseD := e.shadowBaseQ
  shadowParamD := e.shadowParamQ
  shadowThrottleD := e.shadowThrottleQ
  requestNlineD := e.requestNlineQ
  stateD := e.stateQ

/-- One less, down to zero. -/
def pred (n : BitVec 16) : BitVec 16 := if n = 0 then 0 else n - 1

def combIdle (e : Stride h) : StrideOut h :=
  let o := e.default
  if e.csrBaseQ.enable then
    let o := { o with shadowBaseD := e.csrBaseQ }
    if e.csrParamQ.nlines ≠ 0 ∨ e.csrParamQ.nblocks ≠ 0 then
      { o with
        shadowParamD := e.csrParamQ, shadowThrottleD := e.csrThrottleQ, stateD := .snoop }
    else { o with shadowBaseD := { e.csrBaseQ with enable := false }, csrBaseUpdate := true }
  else o

/-- The first cacheline of the next block becomes the base. -/
def nextBlock (e : Stride h) (o : StrideOut h) : StrideOut h :=
  let n := e.baseNline + e.incrementStride
  { o with
    requestNlineD := n, shadowBaseD := { e.shadowBaseQ with baseCline := n.setWidth 58 } }

def combSnoop (e : Stride h) (i : StrideIn) : StrideOut h :=
  let o := e.default
  if e.csrBaseQ.enable then
    if i.snoopMatch then
      let o := { o with stateD := .sendReq }
      if e.shadowParamQ.nlines = 0 then
        { e.nextBlock o with nblocksCntD := pred e.shadowParamQ.nblocks, nlinesCntD := 0 }
      else
        { o with
          requestNlineD := e.baseNline + 1
          nblocksCntD := e.shadowParamQ.nblocks
          nlinesCntD := e.shadowParamQ.nlines - 1 }
    else o
  else { o with stateD := .idle }

def combSendReq (e : Stride h) (i : StrideIn) : StrideOut h :=
  let o := { e.default with busy := true, reqValid := true }
  if i.reqReady then
    let o := { o with inflightInc := true }
    let o :=
      if e.nlinesCntQ = 0 then
        { e.nextBlock o with
          nblocksCntD := pred e.nblocksCntQ, nlinesCntD := e.shadowParamQ.nlines }
      else { o with requestNlineD := e.requestNlineQ + 1, nlinesCntD := e.nlinesCntQ - 1 }
    let o :=
      if e.nblocksCntQ = 0 ∧ e.nlinesCntQ = 0 then { o with stateD := .done }
      else if e.shadowThrottleQ.nwait = 0 then
        { o with stateD := if e.isInflightMax then .wait else .sendReq }
      else { o with nwaitCntD := e.shadowThrottleQ.nwait, stateD := .wait }
    if e.csrBaseQ.enable then o else { o with stateD := .abort }
  else o

def combWait (e : Stride h) : StrideOut h :=
  let o := { e.default with busy := true }
  if e.csrBaseQ.enable then
    { o with
      stateD := if !e.isInflightMax && decide (e.nwaitCntQ = 0) then .sendReq else e.stateQ
      nwaitCntD := pred e.nwaitCntQ }
  else { o with stateD := .abort }

def combDone (e : Stride h) : StrideOut h :=
  let o := { e.default with busy := true }
  if e.csrBaseQ.enable then
    let o := { o with nwaitCntD := pred e.nwaitCntQ }
    if decide (e.inflightCntQ = 0) && !e.isInflightMax && decide (e.nwaitCntQ = 0) then
      let b := e.shadowBaseQ
      let b := if b.rearm then b else { b with enable := false }
      { o with
        csrBaseUpdate := true
        stateD := if b.rearm then .snoop else .idle
        shadowBaseD := if b.cycle then { b with baseCline := e.csrBaseQ.baseCline } else b }
    else o
  else { o with stateD := .abort }

def combAbort (e : Stride h) : StrideOut h :=
  let o := { e.default with busy := true }
  if e.inflightCntQ = 0 then { o with stateD := .idle } else o

def comb (e : Stride h) (i : StrideIn) : StrideOut h :=
  match e.stateQ with
  | .idle => e.combIdle
  | .snoop => e.combSnoop i
  | .sendReq => e.combSendReq i
  | .wait => e.combWait
  | .done => e.combDone
  | .abort => e.combAbort

def step (e : Stride h) (i : StrideIn) : Stride h :=
  let o := e.comb i
  let sent := if o.inflightInc then e.inflightCntQ + 1 else e.inflightCntQ
  { stateQ := o.stateD
    csrBaseQ := i.csrBase.getD (if o.csrBaseUpdate then o.shadowBaseD else e.csrBaseQ)
    csrParamQ := i.csrParam.getD e.csrParamQ
    csrThrottleQ := i.csrThrottle.getD e.csrThrottleQ
    shadowBaseQ := o.shadowBaseD
    shadowParamQ := o.shadowParamD
    shadowThrottleQ := o.shadowThrottleD
    requestNlineQ := o.requestNlineD
    nblocksCntQ := o.nblocksCntD
    nlinesCntQ := o.nlinesCntD
    nwaitCntQ := o.nwaitCntD
    inflightCntQ := if i.rspValid && decide (e.inflightCntQ ≠ 0) then sent - 1 else sent }

end Stride

/-! ## The wrapper -/

structure Hwpf (h : HwpfCfg) where
  engine : Fin h.engines → Stride h
  arb : RrArb h.engines
  snoopValidQ : Fin h.snoopPorts → Bool
  snoopOffsetQ : Fin h.snoopPorts → Nat

/-- A port that is snooped. The tag and the abort of a virtually indexed request come one cycle
after the rest. -/
structure SnoopPort where
  valid : Bool
  abort : Bool
  addrOffset : Nat
  addrTag : Nat
  physIndexed : Bool

structure HwpfIn (h : HwpfCfg) where
  csrBase : Fin h.engines → Option StrideBase
  csrParam : Fin h.engines → Option StrideParam
  csrThrottle : Fin h.engines → Option StrideThrottle
  snoop : Fin h.snoopPorts → SnoopPort
  sid : Nat
  reqReady : Bool
  rspValid : Bool
  rspTid : Nat

namespace Hwpf

variable {h : HwpfCfg}

def reset (f : Hwpf h) : Hwpf h where
  engine := fun k => (f.engine k).reset
  arb := RrArb.reset _
  snoopValidQ := fun _ => false
  snoopOffsetQ := fun _ => 0

variable (f : Hwpf h) (i : HwpfIn h)

/-- A snooped line: the tag is put above the whole offset, and the result cut to a line. -/
def snoopNline (p : Fin h.snoopPorts) : BitVec h.nlineWidth :=
  let offset := if (i.snoop p).physIndexed then (i.snoop p).addrOffset else f.snoopOffsetQ p
  BitVec.ofNat _ ((i.snoop p).addrTag * 2 ^ (h.setWidth + h.clOffsetWidth) + offset)

def snoopMatch (k : Fin h.engines) : Bool :=
  decide (∃ p, (if (i.snoop p).physIndexed then (i.snoop p).valid else f.snoopValidQ p) = true ∧
    (i.snoop p).abort = false ∧ (f.engine k).baseNline = f.snoopNline i p)

/-- The requests of the engines as the wrapper gives them to the arbiter. -/
def arbReq (k : Fin h.engines) : HwpfReq h.cache :=
  { (f.engine k).req with
    sid := i.sid
    tid := k.val % 2 ^ h.tidWidth
    addrTag := 0
    uncacheable := false
    io := false
    wrPolicyHint := 0 }

def arbValid : Bits h.engines := fun k => decide ((f.engine k).stateQ = .sendReq)

def gnt : Bits h.engines := f.arb.gnt f.arbValid

def reqValid : Bool := any f.gnt

/-- The request of the wrapper, if any. -/
def req : Option (HwpfReq h.cache) := (first? f.gnt).map (f.arbReq i)

/-- The response goes to the engine whose index it carries. -/
def rspValid (k : Fin h.engines) : Bool := i.rspValid && decide (k.val = i.rspTid)

def engineIn (k : Fin h.engines) : StrideIn where
  csrBase := i.csrBase k
  csrParam := i.csrParam k
  csrThrottle := i.csrThrottle k
  snoopMatch := f.snoopMatch i k
  reqReady := f.gnt k && i.reqReady
  rspValid := rspValid i k

def step : Hwpf h where
  engine := fun k => (f.engine k).step (f.engineIn i k)
  arb := f.arb.step f.arbValid i.reqReady
  snoopValidQ := fun p => if (i.snoop p).physIndexed then (i.snoop p).valid else f.snoopValidQ p
  snoopOffsetQ := fun p =>
    if (i.snoop p).physIndexed then (i.snoop p).addrOffset else f.snoopOffsetQ p

end Hwpf

/-! ## Service -/

/-- The request as the controller reads it. -/
def HwpfReq.toReq {c : Cfg} (r : HwpfReq c) (hint : WrPolicyHint) : Req c where
  addrTag := r.addrTag
  addrSet := r.addrSet
  addrOff := r.addrOff
  wdata := r.wdata
  op := r.op
  be := r.be
  size := r.size
  sid := r.sid
  tid := r.tid
  needRsp := r.needRsp
  physIndexed := r.physIndexed
  pma := ⟨r.uncacheable, hint⟩

namespace Hwpf

variable {h : HwpfCfg}

/-- The controller, with the request of the wrapper in stage 1, looks for the line of the engine
`g`, cacheable, and a response to it is one for `g` and for no other. What it reads in the hint,
and what the requester shows in the second cycle, do not matter. -/
structure Serves (f : Hwpf h) (r : HwpfReq h.cache) (g : Fin h.engines) : Prop where
  line : ∀ (s : Cache h.cache) (i₀ i : CacheIn h.cache) (hint : WrPolicyHint),
    i₀.coreReq = r.toReq hint → s.st1.reqQ = ⟨Cache.coreSt0Req i₀, false, false, false⟩ →
      s.st1Nline i = h.nline (f.engine g).requestNlineQ
  cacheable : ∀ (s : Cache h.cache) (i₀ i : CacheIn h.cache) (hint : WrPolicyHint),
    i₀.coreReq = r.toReq hint → s.st1.reqQ = ⟨Cache.coreSt0Req i₀, false, false, false⟩ →
      i₀.cfgEnable = true → i.cfgEnable = true → s.st1ReqIsUncacheable i = false
  rsp : ∀ (s : Cache h.cache) (i₀ i : CacheIn h.cache) (hint : WrPolicyHint) (j : HwpfIn h),
    i₀.coreReq = r.toReq hint → s.st1.reqQ = ⟨Cache.coreSt0Req i₀, false, false, false⟩ →
      j.rspValid = true → j.rspTid = (s.st1Req i).req.tid →
        ∀ k, rspValid j k = true ↔ k = g

/-- What the controller reads of a physically indexed request is in the request. -/
theorem st1Req_of_phys {c : Cfg} {s : Cache c} {i₀ i : CacheIn c} {r : HwpfReq c}
    {hint : WrPolicyHint} (hp : r.physIndexed = true) (hr : i₀.coreReq = r.toReq hint)
    (hs : s.st1.reqQ = ⟨Cache.coreSt0Req i₀, false, false, false⟩) :
    (s.st1Req i).req.addrTag = r.addrTag ∧ (s.st1Req i).req.addrSet = r.addrSet ∧
      (s.st1Req i).req.tid = r.tid ∧
      (s.st1Req i).req.pma.uncacheable = (!i.cfgEnable || (!i₀.cfgEnable || r.uncacheable)) := by
  have hphys : s.st1.reqQ.req.physIndexed = true := by
    rw [hs]
    show i₀.coreReq.physIndexed = true
    rw [hr]
    exact hp
  unfold Cache.st1Req Cache.st1Tag Cache.st1Pma
  rw [if_pos hphys, if_pos hphys, hs]
  simp only [Cache.coreSt0Req, hr, HwpfReq.toReq, Bool.false_eq_true, if_false, and_self]

section
variable {f : Hwpf h} {i : HwpfIn h} {g : Fin h.engines}

/-- The wrapper's request for an engine is served as it is when the line of the engine has a tag
of zero, and the index of the engine fits in the identifier. -/
theorem serves_arbReq_iff :
    f.Serves (f.arbReq i g) g ↔
      (h.nline (f.engine g).requestNlineQ).tag = 0 ∧ g.val < 2 ^ h.tidWidth := by
  have hmod : g.val % 2 ^ h.tidWidth ≤ g.val := Nat.mod_le _ _
  constructor
  · intro hs
    -- any state of the controller with this request in stage 1
    let i₀ : CacheIn h.cache :=
      { CacheIn.idle h.cache with coreReq := (f.arbReq i g).toReq .auto }
    let s : Cache h.cache :=
      (Cache.blank h.cache).withSt1Req ⟨Cache.coreSt0Req i₀, false, false, false⟩
    have hphys : (f.arbReq i g).physIndexed = true := rfl
    have hreq : i₀.coreReq = (f.arbReq i g).toReq .auto := rfl
    have hst := st1Req_of_phys (i := i₀) (s := s) hphys hreq rfl
    refine ⟨?_, ?_⟩
    · have hline := hs.line s i₀ i₀ .auto rfl rfl
      have htag := congrArg Nline.tag hline
      exact htag.symm.trans hst.1
    · let j : HwpfIn h :=
        { i with rspValid := true, rspTid := (s.st1Req i₀).req.tid }
      have hg := (hs.rsp s i₀ i₀ .auto j rfl rfl rfl rfl g).2 rfl
      have htid : g.val = (s.st1Req i₀).req.tid := by
        simpa [rspValid, j] using hg
      rw [hst.2.2.1] at htid
      rw [htid]
      exact Nat.mod_lt _ (Nat.two_pow_pos _)
  · rintro ⟨htag, hlt⟩
    refine ⟨?_, ?_, ?_⟩
    · intro s i₀ i' hint hr hs
      obtain ⟨h1, h2, -, -⟩ := st1Req_of_phys (i := i') rfl hr hs
      have hline : s.st1Nline i' = ⟨(f.arbReq i g).addrTag, (f.arbReq i g).addrSet⟩ := by
        rw [← h1, ← h2]
        rfl
      rw [hline]
      show (⟨0, (h.nline (f.engine g).requestNlineQ).set⟩ : Nline h.cache) = _
      rw [← htag]
    · intro s i₀ i' hint hr hs hen₀ hen
      obtain ⟨-, -, -, huc⟩ := st1Req_of_phys (i := i') rfl hr hs
      unfold Cache.st1ReqIsUncacheable
      rw [huc, hen, hen₀]
      rfl
    · intro s i₀ i' hint j hr hs hv ht k
      obtain ⟨-, -, htid, -⟩ := st1Req_of_phys (i := i') rfl hr hs
      have hid : j.rspTid = g.val := by
        rw [ht, htid]
        exact Nat.mod_eq_of_lt hlt
      rw [rspValid, hv, hid, Bool.true_and, decide_eq_true_eq, Fin.ext_iff]

/-! ## Runs -/

/-- What the arbiter holds is asked for by an engine. -/
def Held (f : Hwpf h) : Prop := f.arb.Held f.arbValid

theorem held_reset (f : Hwpf h) : f.reset.Held := RrArb.held_reset

/-- An engine keeps its request up until it is taken. -/
theorem stays (e : Stride h) {i : StrideIn} (hs : e.stateQ = .sendReq) (hr : i.reqReady = false) :
    (e.step i).stateQ = .sendReq := by
  simp [Stride.step, Stride.comb, Stride.combSendReq, Stride.default, hs, hr]

theorem Held.step (hf : f.Held) (i : HwpfIn h) : (f.step i).Held := by
  refine RrArb.Held.step hf ?_
  intro hready k hk
  have hs : (f.engine k).stateQ = .sendReq := by
    simpa [arbValid] using hf.gnt_mem hk
  have hstay : ((f.engine k).step (f.engineIn i k)).stateQ = .sendReq := by
    apply stays _ hs
    simp [engineIn, hready]
  exact decide_eq_true hstay

theorem held_run (f : Hwpf h) (is : List (HwpfIn h)) : (run Hwpf.step f.reset is).Held :=
  run_invariant (held_reset f) fun _ i hf => hf.step i

/-- The request that leaves the wrapper is that of the one engine that is granted. -/
theorem Held.req_eq (hf : f.Held) {r : HwpfReq h.cache} (hr : f.req i = some r) :
    ∃ g, (∀ k, f.gnt k = true ↔ k = g) ∧ (f.engine g).stateQ = .sendReq ∧ r = f.arbReq i g := by
  obtain ⟨g, hg, rfl⟩ := Option.map_eq_some_iff.1 hr
  have hgnt : f.gnt g = true := first?_mem hg
  refine ⟨g, ?_, ?_, rfl⟩
  · intro k
    constructor
    · intro hk
      exact hf.oneHot_gnt k g hk hgnt
    · rintro rfl
      exact hgnt
  · simpa [arbValid] using hf.gnt_mem hgnt

end

/-- **The request of the wrapper.** In every reachable state it is that of the engine that is
granted, and it is for the line of that engine exactly when the tag of the line is zero and the
index of the engine fits in the identifier. -/
theorem serves_run (f₀ : Hwpf h) (is : List (HwpfIn h)) (i : HwpfIn h) (r : HwpfReq h.cache)
    (hr : (run Hwpf.step f₀.reset is).req i = some r) :
    ∃ g, (∀ k, (run Hwpf.step f₀.reset is).gnt k = true ↔ k = g) ∧
      ((run Hwpf.step f₀.reset is).Serves r g ↔
        (h.nline ((run Hwpf.step f₀.reset is).engine g).requestNlineQ).tag = 0 ∧
          g.val < 2 ^ h.tidWidth) := by
  obtain ⟨g, hgnt, -, rfl⟩ := (held_run f₀ is).req_eq hr
  exact ⟨g, hgnt, serves_arbReq_iff⟩

/-! ## An engine that follows the lines of one set -/

def prefetchCfg : HwpfCfg where
  cache := lowLatencyCfg
  engines := 1
  snoopPorts := 1
  setWidth := 1
  tagWidth := 4
  clOffsetWidth := 4
  tidWidth := 2
  sets_eq := by decide
  engines_le := by decide

def engine0 : Fin prefetchCfg.engines := ⟨0, by decide⟩

/-- The engines before reset. -/
def off : Hwpf prefetchCfg where
  engine := fun _ =>
    { stateQ := .idle
      csrBaseQ := ⟨0, false, false, false⟩
      csrParamQ := ⟨0, 0, 0⟩
      csrThrottleQ := ⟨0, 0⟩
      shadowBaseQ := ⟨0, false, false, false⟩
      shadowParamQ := ⟨0, 0, 0⟩
      shadowThrottleQ := ⟨0, 0⟩
      requestNlineQ := 0
      nblocksCntQ := 0
      nlinesCntQ := 0
      nwaitCntQ := 0
      inflightCntQ := 0 }
  arb := RrArb.reset _
  snoopValidQ := fun _ => false
  snoopOffsetQ := fun _ => 0

def noCsr : HwpfIn prefetchCfg where
  csrBase := fun _ => none
  csrParam := fun _ => none
  csrThrottle := fun _ => none
  snoop := fun _ => ⟨false, false, 0, 0, true⟩
  sid := 0
  reqReady := false
  rspValid := false
  rspTid := 0

/-- The engine is set to prefetch the line after `base`, and then `base` is seen. -/
def trigger (base : BitVec 58) : List (HwpfIn prefetchCfg) :=
  [{ noCsr with
      csrBase := fun _ => some ⟨base, false, false, true⟩
      csrParam := fun _ => some ⟨0, 1, 0⟩ },
    noCsr,
    { noCsr with snoop := fun _ => ⟨true, false, base.toNat, 0, true⟩ }]

def triggered (base : BitVec 58) : Hwpf prefetchCfg := run Hwpf.step off.reset (trigger base)

theorem triggered_req (base : BitVec 58) (h : (triggered base).gnt engine0 = true) :
    (triggered base).req noCsr = some ((triggered base).arbReq noCsr engine0) := by
  have hfirst : first? (triggered base).gnt = some engine0 := by
    apply first?_of_forall
    intro k
    have hk : k = engine0 := Fin.ext (Nat.lt_one_iff.1 k.isLt)
    rw [hk, h]
    simp
  rw [req, hfirst]
  rfl

/-- The line after the line zero has a tag of zero. -/
theorem serves_triggered_zero :
    ∃ g, (triggered 0).gnt g = true ∧
      (triggered 0).Serves ((triggered 0).arbReq noCsr engine0) g := by
  obtain ⟨g, hgnt, hserves⟩ :=
    serves_run off (trigger 0) noCsr _ (triggered_req 0 (by decide +kernel))
  have hg : g = engine0 := Fin.ext (Nat.lt_one_iff.1 g.isLt)
  subst hg
  exact ⟨engine0, (hgnt engine0).2 rfl, hserves.2 ⟨by decide +kernel, by decide⟩⟩

/-- The line after the line 2 is the line 3, of tag 1: the request is for the line of the same set
with tag zero. -/
theorem triggered_not_serves :
    ∃ r, (run Hwpf.step off.reset (trigger 2)).req noCsr = some r ∧
      prefetchCfg.nline ((run Hwpf.step off.reset (trigger 2)).engine engine0).requestNlineQ =
        ⟨1, ⟨1, by decide⟩⟩ ∧
      r.addrTag = 0 ∧ r.physIndexed = true ∧
      ¬ ∃ g, (run Hwpf.step off.reset (trigger 2)).gnt g = true ∧
        (run Hwpf.step off.reset (trigger 2)).Serves r g := by
  refine ⟨_, triggered_req 2 (by decide +kernel), by decide +kernel, rfl, rfl, ?_⟩
  rintro ⟨g, -, hserves⟩
  have hg : g = engine0 := Fin.ext (Nat.lt_one_iff.1 g.isLt)
  subst hg
  exact absurd (serves_arbReq_iff.1 hserves).1 (by decide +kernel)

end Hwpf

end Hpdcache
