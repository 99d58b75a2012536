import Hpdcache.Lib.Ring
import Hpdcache.Lib.System
import Hpdcache.Types
import Mathlib.Data.List.Nodup
import Mathlib.Data.List.Perm.Basic

/-!
# The adapter to the L1.5 cache

The adapter sends the requests of the ports to an L1.5 cache, one at a time, each under a thread ID
of a pool of free ones. It keeps the port and the ID of each request in tables indexed by the
thread ID, and routes the responses with them.

The L1.5 acknowledges the header of a request, then the request. It presents a response until the
adapter acknowledges it. A response can carry an invalidation of the data cache, which the cache
can stall.

* `L15Run` — a run, with the requests, the responses and the deliveries that have taken place.
* `L15Run.Delivers` — every response is delivered once, to the request that it answers, and its
  thread ID goes back to the pool once.
* `L15Run.delivers_iff` — this holds all along a run if and only if the cache takes the
  invalidation whenever the port takes the response that carries it.
-/

namespace Hpdcache

open Hw

/-! ## Messages -/

/-- Parameters of the adapter. -/
structure L15Cfg where
  numPorts : Nat
  icachePort : Fin numPorts
  dcacheReadPort : Fin numPorts
  dcacheWritePort : Fin numPorts
  dcacheAmoPort : Fin numPorts
  swapEndianness : Bool
  tidWidth : Nat

namespace L15Cfg

variable (k : L15Cfg)

def numThreadIds : Nat := 2 ^ k.tidWidth

theorem numThreadIds_pos : 0 < k.numThreadIds := Nat.two_pow_pos k.tidWidth

/-- Thread IDs. -/
abbrev Tid := Fin k.numThreadIds

end L15Cfg

/-- Request types of the L1.5. -/
inductive L15Rqtype
  | imiss
  | load
  | store
  | atomic
  deriving DecidableEq, Repr

/-- Atomic operations of the L1.5. -/
inductive L15Amo
  | lr
  | sc
  | swap
  | add
  | and
  | or
  | xor
  | max
  | maxu
  | min
  | minu
  deriving DecidableEq, Repr

/-- Return types of the L1.5 that the adapter tells apart. -/
inductive L15Rtype
  | atomicRes
  | evictReq
  | err
  | other
  deriving DecidableEq, Repr

/-- A request of a port, with the grant of the ports that have one. -/
structure L15Port (k : L15Cfg) where
  pid : Fin k.numPorts
  index : Fin k.numPorts → Bool
  command : MemCommand
  amo : MemAtomic
  cacheable : Bool
  id : Nat

/-- What the L1.5 sends. -/
structure L15Rtrn (k : L15Cfg) where
  headerAck : Bool
  ack : Bool
  val : Bool
  returntype : L15Rtype
  threadid : k.Tid
  data : Fin 4 → Fin 8 → Byte
  invalIcacheInval : Bool
  invalIcacheAllWay : Bool
  invalDcacheInval : Bool
  invalDcacheAllWay : Bool
  invalAddress : Nat

/-- What happens in a cycle around the adapter. The ready inputs are those of the ports. -/
structure L15In (k : L15Cfg) where
  reqValid : Bool
  req : L15Port k
  respReady : Fin k.numPorts → Bool
  invalReady : Bool
  rtrn : L15Rtrn k

/-- What the adapter sends to the L1.5. -/
structure L15Out (k : L15Cfg) where
  val : Bool
  reqAck : Bool
  rqtype : L15Rqtype
  nc : Bool
  threadid : k.Tid
  amoOp : L15Amo

/-- A response to a port. -/
structure L15Resp where
  error : Bool
  id : Nat
  rLast : Bool
  wIsAtomic : Bool
  rData : Fin 4 → Fin 8 → Byte
  invalIcache : Bool
  invalDcache : Bool
  inval : Nat

namespace L15Port

variable {k : L15Cfg} (r : L15Port k)

def isIfill : Bool := r.index k.icachePort

def isRead : Bool := r.index k.dcacheReadPort && decide (r.command = .read)

def isWrite : Bool := r.index k.dcacheWritePort && decide (r.command = .write)

def rqtype : L15Rqtype :=
  if r.isIfill then .imiss
  else if r.isRead then .load
  else if r.isWrite then .store
  else .atomic

/-- The translation of the atomic operation. The data of a clear is inverted on its way. -/
def amoOp : L15Amo :=
  match r.amo with
  | .add => .add
  | .clr => .and
  | .set => .or
  | .eor => .xor
  | .smax => .max
  | .smin => .min
  | .umax => .maxu
  | .umin => .minu
  | .swap => .swap
  | .ldex => .lr
  | .stex => .sc

end L15Port

namespace L15Rtrn

variable {k : L15Cfg} (r : L15Rtrn k)

def memInvalIcacheValid : Bool := (r.invalIcacheInval || r.invalIcacheAllWay) && r.val

def memInvalDcacheValid : Bool := (r.invalDcacheInval || r.invalDcacheAllWay) && r.val

def memOnlyInval : Bool := decide (r.returntype = .evictReq)

/-- The response of a conditional store that has succeeded. -/
def scPass : Bool :=
  decide (r.returntype = .atomicRes) && decide (∀ b, r.data 0 b = 0)

/-- The L1.5 presents a response, which may carry an invalidation. -/
def isResponse : Bool := r.val && !r.memOnlyInval

end L15Rtrn

/-! ## The adapter -/

inductive ThreadIdFsm
  | idle
  | waitingHeaderAck
  | waitingAck
  deriving DecidableEq, Repr

structure L15Adapter (k : L15Cfg) where
  thState : ThreadIdFsm
  hpdcTid : k.Tid → Nat
  hpdcPid : k.Tid → Fin k.numPorts
  freeThids : Ring k.Tid k.numThreadIds

namespace L15Adapter

variable {k : L15Cfg}

/-- After reset every thread ID is free. -/
def reset (k : L15Cfg) : L15Adapter k where
  thState := .idle
  hpdcTid := fun _ => 0
  hpdcPid := fun _ => ⟨0, k.icachePort.pos⟩
  freeThids := Ring.reset k.numThreadIds_pos id

variable (a : L15Adapter k) (i : L15In k)

def freeThid : Bool := a.freeThids.rok

def reqThid : k.Tid := a.freeThids.rdata

/-! ### Responses -/

def respValid : Bool :=
  if i.rtrn.memOnlyInval && i.rtrn.memInvalDcacheValid then false else i.rtrn.val

def respPid : Fin k.numPorts :=
  if i.rtrn.memOnlyInval && i.rtrn.memInvalIcacheValid then k.icachePort
  else if i.rtrn.returntype = .atomicRes then k.dcacheAmoPort
  else a.hpdcPid i.rtrn.threadid

def resp : L15Resp where
  error := decide (i.rtrn.returntype = .err)
  id := a.hpdcTid i.rtrn.threadid
  rLast := true
  wIsAtomic := i.rtrn.scPass
  rData := fun w b => i.rtrn.data w (if k.swapEndianness then b.rev else b)
  invalIcache := i.rtrn.memInvalIcacheValid
  invalDcache := i.rtrn.memInvalDcacheValid
  inval := i.rtrn.invalAddress

/-- The demultiplexer selects the ready of the port that the response is for. -/
def respReady : Bool := i.respReady (a.respPid i)

/-- The response, or the invalidation, is acknowledged. -/
def reqAck : Bool :=
  if i.rtrn.memInvalDcacheValid then
    if i.rtrn.memOnlyInval then i.rtrn.val && i.invalReady
    else i.rtrn.val && i.invalReady && a.respReady i
  else i.rtrn.val && a.respReady i

/-- A thread ID goes back to the pool. -/
def freeW : Option k.Tid :=
  if a.respReady i && i.rtrn.val && !i.rtrn.memOnlyInval then some i.rtrn.threadid else none

/-! ### Requests -/

def reqValid : Bool :=
  match a.thState with
  | .idle => i.reqValid && a.freeThid
  | .waitingHeaderAck => true
  | .waitingAck => false

/-- The request has been processed by the L1.5. -/
def reqReady : Bool :=
  match a.thState with
  | .idle => i.reqValid && a.freeThid && i.rtrn.headerAck && i.rtrn.ack
  | .waitingHeaderAck => i.reqValid && i.rtrn.headerAck && i.rtrn.ack
  | .waitingAck => i.reqValid && i.rtrn.ack

def thStateD : ThreadIdFsm :=
  match a.thState with
  | .idle =>
    if i.reqValid && a.freeThid then
      if i.rtrn.headerAck then
        if i.rtrn.ack then .idle else .waitingAck
      else .waitingHeaderAck
    else .idle
  | .waitingHeaderAck =>
    if i.reqValid && i.rtrn.headerAck then
      if i.rtrn.ack then .idle else .waitingAck
    else .waitingHeaderAck
  | .waitingAck => if i.reqValid && i.rtrn.ack then .idle else .waitingAck

def out : L15Out k where
  val := a.reqValid i
  reqAck := a.reqAck i
  rqtype := i.req.rqtype
  nc := !i.req.cacheable
  threadid := a.reqThid
  amoOp := i.req.amoOp

/-- The read input of the pool. -/
def freeR : Bool := i.reqValid && i.rtrn.ack

def step : L15Adapter k where
  thState := a.thStateD i
  hpdcTid := if a.reqReady i then Function.update a.hpdcTid a.reqThid i.req.id else a.hpdcTid
  hpdcPid := if a.reqReady i then Function.update a.hpdcPid a.reqThid i.req.pid else a.hpdcPid
  freeThids := a.freeThids.step (a.freeW i) (freeR i)

end L15Adapter

/-! ## Runs -/

/-- A request that the L1.5 has accepted. The serial number tells the requests apart. -/
structure L15Sent (k : L15Cfg) where
  serial : Nat
  pid : Fin k.numPorts
  id : Nat
  tid : k.Tid
  rqtype : L15Rqtype
  deriving DecidableEq, Repr

/-- The port that takes the response: the port that has issued the request, or the port of the data
cache for the results of atomic operations. -/
def L15Sent.home {k : L15Cfg} (r : L15Sent k) : Fin k.numPorts :=
  if r.rqtype = .atomic then k.dcacheAmoPort else r.pid

/-- A run of the adapter, with what has happened in it: the requests accepted by the L1.5, those
that it has not answered yet, those that it has answered, the port and the ID of the responses
delivered, and the thread IDs returned to the pool. -/
structure L15Run (k : L15Cfg) where
  adapter : L15Adapter k
  issued : List (L15Sent k)
  waiting : List (L15Sent k)
  answered : List (L15Sent k)
  delivered : List (Fin k.numPorts × Nat)
  freed : List k.Tid

namespace L15Run

variable {k : L15Cfg}

def reset (k : L15Cfg) : L15Run k where
  adapter := .reset k
  issued := []
  waiting := []
  answered := []
  delivered := []
  freed := []

variable (s : L15Run k) (i : L15In k)

/-- The request that the L1.5 accepts. -/
def sending : Option (L15Sent k) :=
  if s.adapter.reqReady i then
    some ⟨s.issued.length, i.req.pid, i.req.id, s.adapter.reqThid, i.req.rqtype⟩
  else none

/-- The request whose response the L1.5 gets rid of. -/
def answering : Option (L15Sent k) :=
  if i.rtrn.isResponse && s.adapter.reqAck i then
    s.waiting.find? fun r => r.tid = i.rtrn.threadid
  else none

/-- The response that a port takes. What the instruction cache takes of an eviction is no
response. -/
def delivering : Option (Fin k.numPorts × Nat) :=
  if L15Adapter.respValid i && s.adapter.respReady i &&
      !(i.rtrn.memOnlyInval && i.rtrn.memInvalIcacheValid) then
    some (s.adapter.respPid i, (s.adapter.resp i).id)
  else none

/-- The thread ID that enters the pool. -/
def freeing : Option k.Tid :=
  if s.adapter.freeThids.wok then s.adapter.freeW i else none

def step : L15Run k where
  adapter := s.adapter.step i
  issued := s.issued ++ (s.sending i).toList
  waiting := (s.answering i).elim s.waiting s.waiting.erase ++ (s.sending i).toList
  answered := s.answered ++ (s.answering i).toList
  delivered := s.delivered ++ (s.delivering i).toList
  freed := s.freed ++ (s.freeing i).toList

/-- What the requesters and the L1.5 promise. A request is held until it is taken. The L1.5 accepts
a request that it is shown, no earlier than its header. A response answers an accepted request
that has none yet, with an atomic result for an atomic operation, and an eviction invalidates
something. -/
structure Promise : Prop where
  held : s.adapter.thState ≠ .idle → i.reqValid = true
  header : i.rtrn.ack = true → s.adapter.thState ≠ .waitingAck →
    i.rtrn.headerAck = true ∧ s.adapter.reqValid i = true
  answers : i.rtrn.isResponse = true → ∃ r ∈ s.waiting, r.tid = i.rtrn.threadid ∧
    (i.rtrn.returntype = .atomicRes ↔ r.rqtype = .atomic)
  evicts : i.rtrn.val = true → i.rtrn.memOnlyInval = true →
    i.rtrn.memInvalDcacheValid = true ∨ i.rtrn.memInvalIcacheValid = true

/-- Every response has been delivered once, to the port and under the ID of the request that it
answers, and its thread ID has been returned once. -/
structure Delivers : Prop where
  /-- The requests without an answer have distinct thread IDs, other than that of the request in
  progress. -/
  distinct : (s.waiting.map L15Sent.tid).Nodup
  progress : s.adapter.thState ≠ .idle → s.adapter.reqThid ∉ s.waiting.map L15Sent.tid
  /-- The L1.5 has answered the other requests, once each. -/
  accounted : (s.answered ++ s.waiting).Perm s.issued
  serials : s.issued.map L15Sent.serial = List.range s.issued.length
  routed : s.delivered = s.answered.map fun r => (r.home, r.id)
  recycled : s.freed = s.answered.map L15Sent.tid
  /-- A thread ID is in the pool or with a request, and only once. -/
  pool : (s.adapter.freeThids.contents ++ s.waiting.map L15Sent.tid).Perm
    (List.finRange k.numThreadIds)

/-- The cache takes the invalidation when the port takes the response that carries it. -/
def Taken : Prop :=
  i.rtrn.isResponse = true → i.rtrn.memInvalDcacheValid = true → s.adapter.respReady i = true →
    i.invalReady = true

instance : Decidable (s.Taken i) := by
  unfold Taken
  infer_instance

/-! ## The invariant -/

/-- The deliveries, the tables for the requests without an answer, and the pool, from which the
thread ID of the request in progress is not yet taken. -/
structure Inv : Prop where
  delivers : s.Delivers
  wf : s.adapter.freeThids.WF
  tables : ∀ r ∈ s.waiting, s.adapter.hpdcTid r.tid = r.id ∧ s.adapter.hpdcPid r.tid = r.pid
  busy : s.adapter.thState ≠ .idle → s.adapter.freeThid = true

variable {s : L15Run k} {i : L15In k}

theorem inv_reset : (reset k).Inv where
  delivers := by
    refine ⟨List.nodup_nil, nofun, List.Perm.refl _, rfl, rfl, rfl, ?_⟩
    show ((Ring.reset k.numThreadIds_pos id).contents ++ []).Perm _
    rw [Ring.contents_reset, List.append_nil]
    exact List.Perm.refl _
  wf := Ring.wf_reset
  tables := nofun
  busy := fun h => absurd rfl h

/-- A request is sent exactly when the read input of the pool is set. -/
theorem Promise.freeR_eq (h : s.Promise i) : L15Adapter.freeR i = s.adapter.reqReady i := by
  unfold L15Adapter.freeR L15Adapter.reqReady
  cases ht : s.adapter.thState with
  | idle =>
    cases ha : i.rtrn.ack with
    | false => simp
    | true =>
      obtain ⟨hh, hv⟩ := h.header ha (by simp [ht])
      rw [L15Adapter.reqValid, ht] at hv
      simp only [Bool.and_eq_true] at hv
      simp [hh, hv]
  | waitingHeaderAck =>
    cases ha : i.rtrn.ack with
    | false => simp
    | true =>
      obtain ⟨hh, -⟩ := h.header ha (by simp [ht])
      simp [hh]
  | waitingAck => rfl

theorem Inv.free_of_ready (h : s.Inv) (hr : s.adapter.reqReady i = true) :
    s.adapter.freeThid = true := by
  cases ht : s.adapter.thState with
  | idle =>
    rw [L15Adapter.reqReady, ht] at hr
    simp only [Bool.and_eq_true] at hr
    exact hr.1.1.2
  | waitingHeaderAck => exact h.busy (by simp [ht])
  | waitingAck => exact h.busy (by simp [ht])

/-- The thread ID of a request that is sent is the oldest one of the pool. -/
theorem Inv.contents_of_ready (h : s.Inv) (hr : s.adapter.reqReady i = true) :
    ∃ rest, s.adapter.freeThids.contents = s.adapter.reqThid :: rest := by
  have hhead := h.wf.head?_contents
  have hrok : s.adapter.freeThids.rok = true := h.free_of_ready hr
  rw [if_pos hrok] at hhead
  exact ⟨_, (List.cons_head?_tail hhead).symm⟩

/-! ## Requests and the pool -/

theorem tid_of_sending {r : L15Sent k} (h : s.sending i = some r) :
    s.adapter.reqReady i = true ∧
      r = ⟨s.issued.length, i.req.pid, i.req.id, s.adapter.reqThid, i.req.rqtype⟩ := by
  unfold sending at h
  by_cases hr : s.adapter.reqReady i = true
  · rw [if_pos hr] at h
    exact ⟨hr, (Option.some.inj h).symm⟩
  · rw [if_neg hr] at h
    exact absurd h nofun

/-- The pool after a step, without the thread ID that enters it. -/
theorem Inv.read_contents (h : s.Inv) (hp : s.Promise i) :
    (if L15Adapter.freeR i then s.adapter.freeThids.contents.tail
      else s.adapter.freeThids.contents) ++ s.waiting.map L15Sent.tid ++
      ((s.sending i).map L15Sent.tid).toList |>.Perm (List.finRange k.numThreadIds) := by
  rw [hp.freeR_eq]
  cases hr : s.adapter.reqReady i with
  | false =>
    have hnone : s.sending i = none := by simp [sending, hr]
    simpa [hnone] using h.delivers.pool
  | true =>
    obtain ⟨rest, hrest⟩ := h.contents_of_ready hr
    have hpool := h.delivers.pool
    rw [hrest] at hpool
    simp only [sending, hr, if_true, hrest, List.tail_cons, Option.map_some, Option.toList_some]
    exact List.perm_append_singleton _ _ |>.trans hpool

/-! ## Responses -/

/-- The response that the L1.5 presents answers one request. -/
theorem Inv.answer (h : s.Inv) (hp : s.Promise i) (hr : i.rtrn.isResponse = true) :
    ∃ r ∈ s.waiting, s.waiting.find? (fun r => r.tid = i.rtrn.threadid) = some r ∧
      r.tid = i.rtrn.threadid ∧ (i.rtrn.returntype = .atomicRes ↔ r.rqtype = .atomic) := by
  obtain ⟨r, hmem, htid, htype⟩ := hp.answers hr
  have hfind : (s.waiting.find? fun r => r.tid = i.rtrn.threadid).isSome = true := by
    rw [List.find?_isSome]
    exact ⟨r, hmem, by simpa using htid⟩
  obtain ⟨r', hr'⟩ := Option.isSome_iff_exists.1 hfind
  have hmem' := List.mem_of_find?_eq_some hr'
  have htid' : r'.tid = i.rtrn.threadid := by simpa using List.find?_some hr'
  have heq : r' = r :=
    List.inj_on_of_nodup_map h.delivers.distinct hmem' hmem (htid'.trans htid.symm)
  rw [heq] at hr' hmem'
  exact ⟨r, hmem', hr', htid, htype⟩

theorem isResponse_eq_true : i.rtrn.isResponse = true ↔
    i.rtrn.val = true ∧ i.rtrn.memOnlyInval = false := by
  rw [L15Rtrn.isResponse, Bool.and_eq_true, Bool.not_eq_true']

theorem freeW_eq : s.adapter.freeW i =
    if i.rtrn.isResponse && s.adapter.respReady i then some i.rtrn.threadid else none := by
  unfold L15Adapter.freeW L15Rtrn.isResponse
  congr 2
  rw [Bool.and_assoc, Bool.and_comm]

/-- An eviction is not delivered as a response. -/
theorem Promise.delivering_eq (h : s.Promise i) : s.delivering i =
    if i.rtrn.isResponse && s.adapter.respReady i then
      some (s.adapter.respPid i, (s.adapter.resp i).id)
    else none := by
  unfold delivering L15Adapter.respValid L15Rtrn.isResponse
  congr 2
  cases ho : i.rtrn.memOnlyInval with
  | false => simp
  | true =>
    cases hv : i.rtrn.val with
    | false => simp
    | true =>
      rcases h.evicts hv ho with hd | hi
      · simp [hd]
      · simp [hi]

/-- The cache takes the invalidation: the response is acknowledged when the port takes it. -/
theorem Taken.reqAck_eq (h : s.Taken i) (hr : i.rtrn.isResponse = true) :
    s.adapter.reqAck i = s.adapter.respReady i := by
  obtain ⟨hv, ho⟩ := isResponse_eq_true.1 hr
  unfold L15Adapter.reqAck
  rw [hv, ho]
  cases hd : i.rtrn.memInvalDcacheValid with
  | false => simp
  | true =>
    cases hready : s.adapter.respReady i with
    | false => simp
    | true => simp [h hr hd hready]

/-- The port and the ID of a response are those of the request that it answers. -/
theorem Inv.routed (h : s.Inv) (hr : i.rtrn.isResponse = true) {r : L15Sent k}
    (hmem : r ∈ s.waiting) (htid : r.tid = i.rtrn.threadid)
    (htype : i.rtrn.returntype = .atomicRes ↔ r.rqtype = .atomic) :
    (s.adapter.respPid i, (s.adapter.resp i).id) = (r.home, r.id) := by
  obtain ⟨hid, hpid⟩ := h.tables r hmem
  rw [htid] at hid hpid
  have hpid' : s.adapter.respPid i = r.home := by
    have ho := (isResponse_eq_true.1 hr).2
    unfold L15Adapter.respPid L15Sent.home
    rw [ho, Bool.false_and, if_neg Bool.false_ne_true, hpid]
    by_cases ha : i.rtrn.returntype = .atomicRes
    · rw [if_pos ha, if_pos (htype.1 ha)]
    · rw [if_neg ha, if_neg fun hq => ha (htype.2 hq)]
  rw [hpid']
  exact congrArg _ hid

theorem Inv.length_pool (h : s.Inv) :
    s.adapter.freeThids.count + s.waiting.length = k.numThreadIds := by
  have hlen := h.delivers.pool.length_eq
  rwa [List.length_append, List.length_map, Ring.length_contents, List.length_finRange] at hlen

/-- The pool has room for the thread ID of a request without an answer. -/
theorem Inv.wok (h : s.Inv) {r : L15Sent k} (hmem : r ∈ s.waiting) :
    s.adapter.freeThids.wok = true := by
  have hlen := h.length_pool
  have hpos := List.length_pos_of_mem hmem
  rw [h.wf.wok_iff]
  omega

/-- The three things that the end of a response is made of happen together: the L1.5 is
acknowledged, the port takes the response, and the thread ID is returned. -/
theorem Inv.together (h : s.Inv) (hp : s.Promise i) (ht : s.Taken i) :
    (∀ r, s.answering i = some r → r ∈ s.waiting) ∧
    s.delivering i = (s.answering i).map (fun r => (r.home, r.id)) ∧
    s.freeing i = (s.answering i).map L15Sent.tid ∧
    s.freeing i = s.adapter.freeW i := by
  have hdel := hp.delivering_eq
  have hfree := freeW_eq (s := s) (i := i)
  cases hr : i.rtrn.isResponse with
  | false =>
    rw [hr, Bool.false_and, if_neg Bool.false_ne_true] at hdel hfree
    have hans : s.answering i = none := by simp [answering, hr]
    rw [hans, hdel, freeing, hfree]
    simp
  | true =>
    obtain ⟨r, hmem, hfind, htid, htype⟩ := h.answer hp hr
    have hans : s.answering i = if s.adapter.respReady i then some r else none := by
      rw [answering, hr, Bool.true_and, ht.reqAck_eq hr, hfind]
    rw [hr, Bool.true_and] at hdel hfree
    rw [hans, hdel, freeing, hfree, if_pos (h.wok hmem), h.routed hr hmem htid htype, ← htid]
    cases s.adapter.respReady i with
    | false => simp
    | true => simpa using hmem

/-! ## A step -/

theorem perm_answered {o : Option (L15Sent k)} (h : ∀ r, o = some r → r ∈ s.waiting) :
    (o.toList ++ o.elim s.waiting s.waiting.erase).Perm s.waiting := by
  cases o with
  | none => exact List.Perm.refl _
  | some r => exact (List.perm_cons_erase (h r rfl)).symm

theorem Inv.contents_step (h : s.Inv) : (s.step i).adapter.freeThids.contents =
    (if L15Adapter.freeR i then s.adapter.freeThids.contents.tail
      else s.adapter.freeThids.contents) ++ (s.freeing i).toList := by
  show (s.adapter.freeThids.step _ _).contents = _
  rw [h.wf.contents_step, Fifo.step_eq, h.wf.accepted_eq]
  rfl

theorem Inv.pool_step (h : s.Inv) (hp : s.Promise i) (ht : s.Taken i) :
    ((s.step i).adapter.freeThids.contents ++ (s.step i).waiting.map L15Sent.tid).Perm
      (List.finRange k.numThreadIds) := by
  obtain ⟨hans, -, hfreeing, -⟩ := h.together hp ht
  have hread := h.read_contents hp
  have hperm := (perm_answered hans).map L15Sent.tid
  rw [h.contents_step, hfreeing]
  refine List.Perm.trans ?_ hread
  simp only [step, List.map_append, List.append_assoc]
  apply List.Perm.append_left
  rw [← List.append_assoc]
  have hsend : (s.sending i).toList.map L15Sent.tid = ((s.sending i).map L15Sent.tid).toList := by
    cases s.sending i <;> rfl
  have hback : (s.answering i).toList.map L15Sent.tid =
      ((s.answering i).map L15Sent.tid).toList := by
    cases s.answering i <;> rfl
  rw [hsend, ← hback, ← List.map_append]
  exact hperm.append_right _

/-- A request in progress has its thread ID, which it has not taken from the pool yet. -/
theorem Inv.free_of_busy (h : s.Inv) (hb : s.adapter.thStateD i ≠ .idle) :
    s.adapter.reqReady i = false ∧ s.adapter.freeThid = true := by
  unfold L15Adapter.thStateD at hb
  unfold L15Adapter.reqReady
  cases ht : s.adapter.thState with
  | idle =>
    rw [ht] at hb
    cases hf : s.adapter.freeThid with
    | false => simp [hf] at hb
    | true =>
      refine ⟨?_, rfl⟩
      cases hh : i.rtrn.headerAck with
      | false => simp
      | true =>
        cases ha : i.rtrn.ack with
        | false => simp
        | true => simp [hh, ha] at hb
  | waitingHeaderAck =>
    rw [ht] at hb
    refine ⟨?_, h.busy (by simp [ht])⟩
    cases hh : i.rtrn.headerAck with
    | false => simp
    | true =>
      cases ha : i.rtrn.ack with
      | false => simp
      | true =>
        cases hv : i.reqValid with
        | false => rfl
        | true => simp [hh, ha, hv] at hb
  | waitingAck =>
    rw [ht] at hb
    refine ⟨?_, h.busy (by simp [ht])⟩
    cases hv : i.reqValid && i.rtrn.ack with
    | false => rfl
    | true => simp [hv] at hb

theorem Inv.busy_step (h : s.Inv) (hp : s.Promise i) (hb : (s.step i).adapter.thState ≠ .idle) :
    (s.step i).adapter.freeThid = true := by
  obtain ⟨hready, hfree⟩ := h.free_of_busy hb
  have hwf : (s.step i).adapter.freeThids.WF := h.wf.step
  have hrok : s.adapter.freeThids.rok = true := hfree
  rw [h.wf.rok_iff, ← Ring.length_contents] at hrok
  show (s.step i).adapter.freeThids.rok = true
  rw [hwf.rok_iff, ← Ring.length_contents, h.contents_step, hp.freeR_eq, hready,
    if_neg Bool.false_ne_true, List.length_append]
  omega

/-- The oldest thread ID of the pool is with no request. -/
theorem not_waiting (hwf : s.adapter.freeThids.WF)
    (hpool : (s.adapter.freeThids.contents ++ s.waiting.map L15Sent.tid).Perm
      (List.finRange k.numThreadIds))
    (hfree : s.adapter.freeThid = true) : s.adapter.reqThid ∉ s.waiting.map L15Sent.tid := by
  have hhead := hwf.head?_contents
  have hrok : s.adapter.freeThids.rok = true := hfree
  rw [if_pos hrok] at hhead
  have hnodup := hpool.nodup_iff.2 (List.nodup_finRange _)
  intro hmem
  exact (List.nodup_append.1 hnodup).2.2 _ (List.mem_of_mem_head? hhead) _ hmem rfl

theorem Inv.delivers_step (h : s.Inv) (hp : s.Promise i) (ht : s.Taken i) :
    (s.step i).Delivers := by
  obtain ⟨hans, hdel, hfreeing, -⟩ := h.together hp ht
  have hpool := h.pool_step hp ht
  refine ⟨?_, ?_, ?_, ?_, ?_, ?_, hpool⟩
  · have hnodup := hpool.nodup_iff.2 (List.nodup_finRange _)
    exact (List.nodup_append.1 hnodup).2.1
  · intro hb
    exact not_waiting h.wf.step hpool (h.busy_step hp hb)
  · show ((s.answered ++ (s.answering i).toList) ++ (_ ++ (s.sending i).toList)).Perm
      (s.issued ++ (s.sending i).toList)
    rw [← List.append_assoc]
    apply List.Perm.append_right
    rw [List.append_assoc]
    exact ((perm_answered hans).append_left _).trans h.delivers.accounted
  · show (s.issued ++ (s.sending i).toList).map L15Sent.serial = _
    cases hs : s.sending i with
    | none => simpa [step, hs] using h.delivers.serials
    | some r =>
      obtain ⟨-, rfl⟩ := tid_of_sending hs
      simp [step, hs, h.delivers.serials, List.range_succ]
  · show s.delivered ++ (s.delivering i).toList =
      (s.answered ++ (s.answering i).toList).map fun r => (r.home, r.id)
    rw [h.delivers.routed, hdel, List.map_append]
    cases s.answering i <;> rfl
  · show s.freed ++ (s.freeing i).toList = (s.answered ++ (s.answering i).toList).map L15Sent.tid
    rw [h.delivers.recycled, hfreeing, List.map_append]
    cases s.answering i <;> rfl

theorem mem_erase_answered {r : L15Sent k}
    (h : r ∈ (s.answering i).elim s.waiting s.waiting.erase) : r ∈ s.waiting := by
  cases hans : s.answering i with
  | none => rwa [hans] at h
  | some r' =>
    rw [hans] at h
    exact List.mem_of_mem_erase h

theorem Inv.tables_step (h : s.Inv) : ∀ r ∈ (s.step i).waiting,
    (s.step i).adapter.hpdcTid r.tid = r.id ∧ (s.step i).adapter.hpdcPid r.tid = r.pid := by
  intro r hr
  simp only [step, L15Adapter.step]
  rcases List.mem_append.1 hr with hold | hnew
  · have hmem := mem_erase_answered hold
    by_cases hready : s.adapter.reqReady i = true
    · -- the thread ID of the new request comes from the pool, so it is with no other request
      have hnot := not_waiting h.wf h.delivers.pool (h.free_of_ready hready)
      have hne : r.tid ≠ s.adapter.reqThid := by
        intro he
        rw [← he] at hnot
        exact hnot (List.mem_map_of_mem hmem)
      rw [if_pos hready, if_pos hready, Function.update_of_ne hne, Function.update_of_ne hne]
      exact h.tables r hmem
    · rw [if_neg hready, if_neg hready]
      exact h.tables r hmem
  · obtain ⟨hready, rfl⟩ := tid_of_sending (Option.mem_toList.1 hnew)
    rw [if_pos hready, if_pos hready, Function.update_self, Function.update_self]
    exact ⟨rfl, rfl⟩

/-- A step in which the cache takes the invalidation keeps the invariant. -/
theorem Inv.step (h : s.Inv) (hp : s.Promise i) (ht : s.Taken i) : (s.step i).Inv where
  delivers := h.delivers_step hp ht
  wf := h.wf.step
  tables := h.tables_step
  busy := h.busy_step hp

/-- When the cache stalls the invalidation of a response that the port takes, the response is
delivered before the L1.5 is acknowledged. -/
theorem Delivers.taken (h : s.Delivers) (h' : (s.step i).Delivers) (hp : s.Promise i) :
    s.Taken i := by
  intro hr hd hready
  by_contra hinval
  rw [Bool.not_eq_true] at hinval
  have hans : s.answering i = none := by
    have hack : s.adapter.reqAck i = false := by
      obtain ⟨hv, ho⟩ := isResponse_eq_true.1 hr
      simp [L15Adapter.reqAck, hd, ho, hinval]
    simp [answering, hack]
  have hlen := congrArg List.length h.routed
  have hlen' := congrArg List.length h'.routed
  simp only [L15Run.step, hans, hp.delivering_eq, hr, hready, Option.toList_none, List.append_nil,
    Bool.and_self, if_true, Option.toList_some, List.length_append, List.length_singleton,
    List.length_map] at hlen hlen'
  omega

/-! ## The whole run -/

theorem inv_run {is : List (L15In k)} (hp : Along step Promise (reset k) is)
    (ht : Along step Taken (reset k) is) : (run step (reset k) is).Inv :=
  (hp.and ht).invariant inv_reset fun _ _ hinv h => hinv.step h.1 h.2

/-- Every response is delivered once, to the port and under the ID of the request that it answers,
and its thread ID is returned once, all along a run, if and only if the cache takes the
invalidation whenever the port takes the response that carries it. -/
theorem delivers_iff (is : List (L15In k)) (hp : Along step Promise (reset k) is) :
    (∀ m, (run step (reset k) (is.take m)).Delivers) ↔ Along step Taken (reset k) is := by
  constructor
  · intro h
    exact hp.of_states h fun _ _ hs hs' hi => hs.taken hs' hi
  · intro h m
    exact (inv_run (hp.take m) (h.take m)).delivers

instance : Decidable (s.Promise i) :=
  decidable_of_iff
    ((s.adapter.thState ≠ .idle → i.reqValid = true) ∧
      (i.rtrn.ack = true → s.adapter.thState ≠ .waitingAck →
        i.rtrn.headerAck = true ∧ s.adapter.reqValid i = true) ∧
      (i.rtrn.isResponse = true → ∃ r ∈ s.waiting, r.tid = i.rtrn.threadid ∧
        (i.rtrn.returntype = .atomicRes ↔ r.rqtype = .atomic)) ∧
      (i.rtrn.val = true → i.rtrn.memOnlyInval = true →
        i.rtrn.memInvalDcacheValid = true ∨ i.rtrn.memInvalIcacheValid = true))
    ⟨fun ⟨h₁, h₂, h₃, h₄⟩ => ⟨h₁, h₂, h₃, h₄⟩, fun h => ⟨h.held, h.header, h.answers, h.evicts⟩⟩

/-! ## A stalled invalidation -/

/-- Four ports and two thread IDs. -/
def twoTids : L15Cfg where
  numPorts := 4
  icachePort := 0
  dcacheReadPort := 1
  dcacheWritePort := 2
  dcacheAmoPort := 3
  swapEndianness := true
  tidWidth := 1

def firstTid : twoTids.Tid := ⟨0, twoTids.numThreadIds_pos⟩

/-- A write, which the L1.5 accepts at once. -/
def storeIn (id : Nat) : L15In twoTids where
  reqValid := true
  req :=
    ⟨twoTids.dcacheWritePort, fun p => p = twoTids.dcacheWritePort, .write, .add, true, id⟩
  respReady := fun _ => true
  invalReady := true
  rtrn := ⟨true, true, false, .other, firstTid, fun _ _ => 0, false, false, false, false, 0⟩

/-- The response to the first write, with an invalidation of the data cache. -/
def respIn (invalReady : Bool) : L15In twoTids where
  reqValid := false
  req := ⟨twoTids.icachePort, fun _ => false, .read, .add, true, 0⟩
  respReady := fun _ => true
  invalReady := invalReady
  rtrn := ⟨false, false, true, .other, firstTid, fun _ _ => 0, false, false, true, false, 0⟩

theorem delivers_ready :
    (run step (reset twoTids) [storeIn 5, storeIn 6, respIn true]).Delivers :=
  (delivers_iff [storeIn 5, storeIn 6, respIn true] (by decide)).2 (by decide) 3

/-- The cache stalls the invalidation for a cycle: the port gets the response twice, and the thread
ID is twice in the pool. -/
theorem stalled_twice :
    Along step Promise (reset twoTids) [storeIn 5, storeIn 6, respIn false, respIn true] ∧
    (run step (reset twoTids) [storeIn 5, storeIn 6, respIn false, respIn true]).delivered =
      [(twoTids.dcacheWritePort, 5), (twoTids.dcacheWritePort, 5)] ∧
    (run step (reset twoTids) [storeIn 5, storeIn 6, respIn false, respIn true]).freed =
      [firstTid, firstTid] ∧
    ¬ (run step (reset twoTids) [storeIn 5, storeIn 6, respIn false, respIn true]).Delivers := by
  refine ⟨by decide, by decide, by decide, ?_⟩
  intro h
  have hlen := congrArg List.length h.routed
  revert hlen
  decide

end L15Run

end Hpdcache
