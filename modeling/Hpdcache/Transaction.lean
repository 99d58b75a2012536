import Hpdcache.AmoError
import Hpdcache.Channels

/-!
# Uncacheable transactions

The handler of the uncacheable requests and its three channels to the memory, with the lanes of the
memory word. The address and the data of a write are taken in any order, and the responses come in
any order.

**Lanes.** A word of the memory has one or several words of the request. The data of a write are
repeated in all of them, and the byte enables are in the one that the address selects; a read
response is taken from that one.

* `MemCfg.writtenPatch_ucData` — the bytes that the memory writes are those of the request.
* `Uncached.Serving` — what the handler holds in the middle of a transaction.
* `Uncached.rank` — what is left to do: it does not grow, and falls with what the handler waits for.
* `MemCfg.exact_run` — every channel carries what the operation needs, once.
-/

namespace Hpdcache

open Hw

/-- A read response of the memory, on the lanes of its word. -/
structure MemRespR where
  error : Bool
  data : Nat → Byte

/-- The inputs of the handler, with the read response as the memory gives it. The one in `core` is
not used. -/
structure UcBusIn (c : Cfg) where
  core : UcIn c
  memRespRead : Option MemRespR

/-- The answer that the requester gets in a cycle. -/
def Uncached.answered {c : Cfg} (u : Uncached c) (ready : Bool) : List Rsp :=
  if u.coreRspValid && ready then [u.coreRsp] else []

namespace MemCfg

variable (k : MemCfg)

/-- The words of the request in a word of the memory. -/
def memReqRatio : Nat := k.cfg.memBytes / k.cfg.reqBytes

/-- The response at the width of the request. -/
def rspRdataD (u : Uncached k.cfg) (x : MemRespR) : UcReadResp where
  error := x.error
  data := fun b =>
    if 1 < k.memReqRatio then
      x.data (u.reqQ.off / k.cfg.reqBytes % k.memReqRatio * k.cfg.reqBytes + b)
    else x.data b

def ucIn (u : Uncached k.cfg) (i : UcBusIn k.cfg) : UcIn k.cfg :=
  { i.core with memRead := i.memRespRead.map (k.rspRdataD u) }

/-- One cycle of the handler on the channels. -/
def ucStep (u : Uncached k.cfg) (i : UcBusIn k.cfg) : Uncached k.cfg := u.step (k.ucIn u i)

/-! ## What the channels carry -/

/-- The read request, the write request and the write data that the handler offers. -/
def ucReadOut (u : Uncached k.cfg) : Option (MemReq k) :=
  if u.memReadValid then some (k.ucRead u) else none

def ucWriteOut (u : Uncached k.cfg) : Option (MemReq k) :=
  if u.memWriteValid then some (k.ucWrite u) else none

def ucDataOut (u : Uncached k.cfg) : Option MemReqW :=
  if u.memWdataValid then some (k.ucData u) else none

/-- The requests that the memory takes on the read channel, and on the write channel. -/
def readsTaken : Uncached k.cfg → List (UcBusIn k.cfg) → List (MemReq k) :=
  trace k.ucStep fun u i => taken (k.ucReadOut u) i.core.memReadReady

def writesTaken : Uncached k.cfg → List (UcBusIn k.cfg) → List (MemReq k) :=
  trace k.ucStep fun u i => taken (k.ucWriteOut u) i.core.memWriteReady

def datasTaken : Uncached k.cfg → List (UcBusIn k.cfg) → List MemReqW :=
  trace k.ucStep fun u i => taken (k.ucDataOut u) i.core.memWdataReady

/-- The responses that the requester gets. -/
def rspsTaken : Uncached k.cfg → List (UcBusIn k.cfg) → List Rsp :=
  trace k.ucStep fun u i => u.answered i.core.coreRspReady

/-! ## Lanes -/

/-- The bytes that the memory writes for a request and its beat: the enabled lanes of the word that
the address is in. -/
def writtenPatch (x : MemReq k) (w : MemReqW) : Patch (Wbuf.ByteAddr k.cfg) Byte := fun a =>
  if a.1 = x.nline ∧ a.2 / k.cfg.memBytes = x.off / k.cfg.memBytes ∧
      w.be (a.2 % k.cfg.memBytes) = true
  then some (w.data (a.2 % k.cfg.memBytes))
  else none

end MemCfg

/-- A word of the memory has a whole number of words of the request. -/
theorem Cfg.reqBytes_dvd_memBytes {c : Cfg} (hcl : ∃ n, c.clBytes = 2 ^ n)
    (hle : c.reqBytes ≤ c.memBytes) : c.reqBytes ∣ c.memBytes := by
  obtain ⟨n, hn⟩ := hcl
  have hmem : c.memBytes ∣ c.clBytes := Nat.mul_dvd_mul_right c.memWords_dvd _
  have hreq := c.reqBytes_dvd_clBytes
  rw [hn] at hmem hreq
  exact dvd_of_le_pow hreq hmem hle

namespace UcReq

variable {c : Cfg}

/-- The documented alignment: the access is within the request channel, aligned to its size, and the
byte enables are within it. -/
structure Placed (r : UcReq c) : Prop where
  fits : 2 ^ r.size ≤ c.reqBytes
  off : 2 ^ r.size ∣ r.off
  be : ∀ b, r.be b = true → r.off % c.reqBytes ≤ b ∧ b < r.off % c.reqBytes + 2 ^ r.size

/-- The operand that the memory gets: an AND is sent as a clear. -/
def operand (r : UcReq c) (b : Nat) : Byte := if r.op = .amoAnd then ~~~(r.data b) else r.data b

/-- The bytes that a request addresses and enables. -/
def patch (r : UcReq c) : Patch (Wbuf.ByteAddr c) Byte := fun a =>
  if a.1 = r.nline ∧ (r.off ≤ a.2 ∧ a.2 < r.off + 2 ^ r.size) ∧ r.be (a.2 % c.reqBytes) = true
  then some (r.operand (a.2 % c.reqBytes))
  else none

/-- A response of the memory has the bytes of the access on the lanes of the address. -/
def Delivers (r : UcReq c) (mem : Nat → Byte) (x : MemRespR) : Prop :=
  ∀ b < 2 ^ r.size, x.data (r.off % c.memBytes + b) = mem (r.off + b)

/-- The access does not cross the word of its request. -/
theorem Placed.fits_word {r : UcReq c} (h : r.Placed) (hcl : ∃ n, c.clBytes = 2 ^ n) :
    r.off % c.reqBytes + 2 ^ r.size ≤ c.reqBytes := by
  obtain ⟨n, hn⟩ := hcl
  have hdvd : c.reqBytes ∣ 2 ^ (n + r.size) := by
    rw [Nat.pow_add, ← hn]
    exact (c.reqBytes_dvd_clBytes).mul_right _
  have hsize : 2 ^ r.size ∣ 2 ^ (n + r.size) := Nat.pow_dvd_pow 2 (Nat.le_add_left _ n)
  exact mod_add_le c.reqBytes_pos (dvd_of_le_pow hsize hdvd h.fits) h.off

end UcReq

namespace MemCfg

variable {k : MemCfg} {u : Uncached k.cfg}

section Lanes

variable (hdvd : k.cfg.reqBytes ∣ k.cfg.memBytes)
include hdvd

theorem memBytes_eq : k.cfg.memBytes = k.memReqRatio * k.cfg.reqBytes :=
  (Nat.div_mul_cancel hdvd).symm

theorem memReqRatio_pos : 0 < k.memReqRatio := by
  apply Nat.pos_of_ne_zero
  intro h
  have hmem : 0 < k.cfg.memBytes := Nat.mul_pos k.cfg.memWords_pos k.cfg.wordBytes_pos
  rw [memBytes_eq hdvd, h, Nat.zero_mul] at hmem
  exact absurd hmem (Nat.lt_irrefl 0)

/-- The place of the request in the word of the memory, and of its byte in the request. -/
theorem lane_eq (off : Nat) :
    off % k.cfg.memBytes =
      off / k.cfg.reqBytes % k.memReqRatio * k.cfg.reqBytes + off % k.cfg.reqBytes := by
  rw [memBytes_eq hdvd, Nat.mul_comm k.memReqRatio, Nat.mod_mul, Nat.add_comm, Nat.mul_comm]

/-- The byte enables of a request are on the lanes of its address. -/
theorem ucData_be (a : Nat) :
    a / k.cfg.memBytes = u.reqQ.off / k.cfg.memBytes ∧
        (k.ucData u).be (a % k.cfg.memBytes) = true ↔
      a / k.cfg.reqBytes = u.reqQ.off / k.cfg.reqBytes ∧
        u.reqQ.be (a % k.cfg.reqBytes) = true := by
  have hslot := div_eq_div_iff_slot k.memReqRatio k.cfg.reqBytes a u.reqQ.off
  rw [← memBytes_eq hdvd] at hslot
  have hplace (x : Nat) : x % k.cfg.memBytes / k.cfg.reqBytes =
      x / k.cfg.reqBytes % k.memReqRatio := by
    rw [memBytes_eq hdvd, Nat.mod_mul_left_div_self]
  rw [← hslot, hplace, hplace]
  show _ ∧ (if 1 < k.memReqRatio then
    decide (a % k.cfg.memBytes / k.cfg.reqBytes = u.reqQ.off / k.cfg.reqBytes % k.memReqRatio) &&
      u.reqQ.be (a % k.cfg.memBytes % k.cfg.reqBytes)
    else u.reqQ.be (a % k.cfg.memBytes)) = true ↔ _
  by_cases h1 : 1 < k.memReqRatio
  · rw [if_pos h1, hplace, Nat.mod_mod_of_dvd a hdvd, Bool.and_eq_true, decide_eq_true_eq,
      and_assoc]
  · -- a word of the memory is a word of the request
    have hone : k.memReqRatio = 1 := by
      have := memReqRatio_pos hdvd
      omega
    have hsame : k.cfg.memBytes = k.cfg.reqBytes := by rw [memBytes_eq hdvd, hone, Nat.one_mul]
    rw [if_neg h1, hone, Nat.mod_one, Nat.mod_one, hsame]
    simp

/-- The memory writes the bytes that the request addresses and enables, and no other. -/
theorem writtenPatch_ucData (h : u.reqQ.Placed)
    (hfit : u.reqQ.off % k.cfg.reqBytes + 2 ^ u.reqQ.size ≤ k.cfg.reqBytes) :
    k.writtenPatch (k.ucWrite u) (k.ucData u) = u.reqQ.patch := by
  funext a
  have hdata : (k.ucData u).data (a.2 % k.cfg.memBytes) =
      u.reqQ.operand (a.2 % k.cfg.reqBytes) := by
    show u.memWdata (a.2 % k.cfg.memBytes % k.cfg.reqBytes) = _
    rw [Nat.mod_mod_of_dvd a.2 hdvd]
    unfold Uncached.memWdata UcReq.operand
    split_ifs <;> rfl
  have hcond : (a.1 = u.reqQ.nline ∧ a.2 / k.cfg.memBytes = u.reqQ.off / k.cfg.memBytes ∧
        (k.ucData u).be (a.2 % k.cfg.memBytes) = true) ↔
      a.1 = u.reqQ.nline ∧ (u.reqQ.off ≤ a.2 ∧ a.2 < u.reqQ.off + 2 ^ u.reqQ.size) ∧
        u.reqQ.be (a.2 % k.cfg.reqBytes) = true := by
    rw [ucData_be hdvd, mem_access_iff hfit, and_assoc]
    constructor
    · intro hin
      exact ⟨hin.1, hin.2.1, h.be _ hin.2.2, hin.2.2⟩
    · intro hin
      exact ⟨hin.1, hin.2.1, hin.2.2.2⟩
  show (if a.1 = u.reqQ.nline ∧ a.2 / k.cfg.memBytes = u.reqQ.off / k.cfg.memBytes ∧
    (k.ucData u).be (a.2 % k.cfg.memBytes) = true then _ else none) = _
  rw [hdata]
  exact if_congr hcond rfl rfl

/-- The response has the bytes of the access on the lanes of the request. -/
theorem returns_rspRdataD {mem : Nat → Byte} {x : MemRespR} (h : u.reqQ.Delivers mem x) :
    Uncached.Returns u.reqQ mem (k.rspRdataD u x).data := by
  intro b hb
  rw [← h b hb, lane_eq hdvd]
  show (if 1 < k.memReqRatio then x.data (_ + (u.reqQ.off % k.cfg.reqBytes + b))
    else x.data (u.reqQ.off % k.cfg.reqBytes + b)) = _
  by_cases h1 : 1 < k.memReqRatio
  · rw [if_pos h1, Nat.add_assoc]
  · have hone : k.memReqRatio = 1 := by
      have := memReqRatio_pos hdvd
      omega
    rw [if_neg h1, hone, Nat.mod_one, Nat.zero_mul, Nat.zero_add]

end Lanes

end MemCfg

/-! ## The channels of a transaction -/

namespace MemCfg

variable {k : MemCfg} {u : Uncached k.cfg} {i : UcBusIn k.cfg}

theorem ucStep_reqQ (hb : u.fsmQ ≠ .idle) : (k.ucStep u i).reqQ = u.reqQ := Uncached.reqQ_step hb

theorem ucReadOut_spends (hb : u.fsmQ ≠ .idle) :
    Spends (k.ucReadOut u) i.core.memReadReady (k.ucReadOut (k.ucStep u i)) := by
  have hv : (k.ucStep u i).memReadValid = (u.memReadValid && !i.core.memReadReady) :=
    Uncached.memReadValid_step hb
  have hsame : k.ucRead (k.ucStep u i) = k.ucRead u := by
    unfold ucRead
    rw [ucStep_reqQ hb]
  rw [Spends, ucReadOut, hv, hsame, ucReadOut]
  cases u.memReadValid <;> cases i.core.memReadReady <;> rfl

theorem ucWriteOut_spends (hb : u.fsmQ ≠ .idle) :
    Spends (k.ucWriteOut u) i.core.memWriteReady (k.ucWriteOut (k.ucStep u i)) := by
  have hv : (k.ucStep u i).memWriteValid = (u.memWriteValid && !i.core.memWriteReady) :=
    Uncached.memWriteValid_step hb
  have hsame : k.ucWrite (k.ucStep u i) = k.ucWrite u := by
    unfold ucWrite
    rw [ucStep_reqQ hb]
  rw [Spends, ucWriteOut, hv, hsame, ucWriteOut]
  cases u.memWriteValid <;> cases i.core.memWriteReady <;> rfl

theorem ucDataOut_spends (hb : u.fsmQ ≠ .idle) :
    Spends (k.ucDataOut u) i.core.memWdataReady (k.ucDataOut (k.ucStep u i)) := by
  have hv : (k.ucStep u i).memWdataValid = (u.memWdataValid && !i.core.memWdataReady) :=
    Uncached.memWdataValid_step hb
  have hsame : k.ucData (k.ucStep u i) = k.ucData u := by
    unfold ucData Uncached.memWdata
    rw [ucStep_reqQ hb]
  rw [Spends, ucDataOut, hv, hsame, ucDataOut]
  cases u.memWdataValid <;> cases i.core.memWdataReady <;> rfl

/-- A cycle in the middle of a transaction. The memory answers what it was asked, and a read with
the bytes `mem` of the line. -/
structure Busy (k : MemCfg) (mem : Nat → Byte) (u : Uncached k.cfg) (i : UcBusIn k.cfg) : Prop where
  busy : u.fsmQ ≠ .idle
  respOk : u.RespOk (k.ucIn u i)
  delivers : ∀ x, i.memRespRead = some x → u.reqQ.Delivers mem x

end MemCfg

/-! ## The answer -/

namespace Uncached

variable {c : Cfg} {u : Uncached c} {i : UcIn c}

/-- The handler has not sent all of the request yet. -/
def Sending (u : Uncached c) : Prop :=
  u.fsmQ = .memReq ∨ u.fsmQ = .memWReq ∨ u.fsmQ = .memWdataReq

theorem Sending.step (h : u.Sending) : (u.step i).Sending ∨ (u.step i).fsmQ = .memWaitRsp := by
  have hfsm : (u.step i).fsmQ = u.fsmD i := rfl
  unfold Sending
  rcases h with hq | hq | hq
  · cases hw : isWrite u.reqQ.op with
    | true =>
      rw [step_of_write hq hw]
      split_ifs <;> simp
    | false =>
      rw [step_of_not_write hq hw]
      split_ifs <;> simp
  · cases hv : i.memWriteReady <;> simp [hfsm, fsmD, hq, hv]
  · cases hv : i.memWdataReady <;> simp [hfsm, fsmD, hq, hv]

/-- The handler sends, waits for the memory, writes its local copy and answers, in this order. -/
theorem step_cases (hb : u.fsmQ ≠ .idle) :
    (u.Sending ∧ ((u.step i).Sending ∨ (u.step i).fsmQ = .memWaitRsp)) ∨
    (u.fsmQ = .memWaitRsp ∧ (u.step i).fsmQ = u.waitRspD i) ∨
    (u.fsmQ = .amoWriteData ∧ (u.step i).fsmQ = .coreRsp) ∨
    (u.fsmQ = .coreRsp ∧ (u.step i).fsmQ = if i.coreRspReady then .idle else .coreRsp) := by
  have hfsm : (u.step i).fsmQ = u.fsmD i := rfl
  cases hq : u.fsmQ with
  | idle => contradiction
  | memReq => exact .inl ⟨.inl hq, Sending.step (.inl hq)⟩
  | memWReq => exact .inl ⟨.inr (.inl hq), Sending.step (.inr (.inl hq))⟩
  | memWdataReq => exact .inl ⟨.inr (.inr hq), Sending.step (.inr (.inr hq))⟩
  | memWaitRsp => exact .inr (.inl ⟨rfl, by rw [hfsm, fsmD, hq]⟩)
  | amoWriteData => exact .inr (.inr (.inl ⟨rfl, by rw [hfsm, fsmD, hq]⟩))
  | coreRsp => exact .inr (.inr (.inr ⟨rfl, by rw [hfsm, fsmD, hq]⟩))

/-- The handler gets to its last two states from the state that waits for the memory. -/
theorem step_of_answer (hb : u.fsmQ ≠ .idle)
    (hf : (u.step i).fsmQ = .coreRsp ∨ (u.step i).fsmQ = .amoWriteData) :
    (u.fsmQ = .coreRsp ∨ u.fsmQ = .amoWriteData) ∨
      u.fsmQ = .memWaitRsp ∧ (u.waitRspD i = .coreRsp ∨ u.waitRspD i = .amoWriteData) := by
  rcases step_cases (i := i) hb with ⟨-, hs | hs⟩ | ⟨hq, hd⟩ | ⟨hq, -⟩ | ⟨hq, -⟩
  · rcases hs with hs | hs | hs <;> simp [hs] at hf
  · simp [hs] at hf
  · rw [hd] at hf
    exact .inr ⟨hq, hf⟩
  · exact .inl (.inr hq)
  · exact .inl (.inl hq)

/-- Only a load or a store ends without an answer. -/
theorem needRsp_of_answer (hf : u.waitRspD i = .coreRsp ∨ u.waitRspD i = .amoWriteData) :
    u.reqQ.needRsp = true ∨ u.reqQ.op.isAmo = true := by
  by_contra hno
  rw [not_or, Bool.not_eq_true, Bool.not_eq_true] at hno
  obtain ⟨hn, ha⟩ := hno
  have hrmw : u.reqQ.op.isAmoRmw = false ∧ u.reqQ.op ≠ .amoLr ∧ u.reqQ.op ≠ .amoSc := by
    cases ho : u.reqQ.op <;> simp_all [ReqOp.isAmo, ReqOp.isAmoRmw]
  simp only [waitRspD, hn, hrmw, Bool.false_eq_true, if_false] at hf
  split_ifs at hf <;> simp at hf

theorem needRsp_of_end (hb : u.fsmQ ≠ .idle) (hq : u.fsmQ ≠ .coreRsp)
    (hend : (u.step i).fsmQ = .idle) : u.reqQ.needRsp = false := by
  rcases step_cases (i := i) hb with ⟨-, hs | hs⟩ | ⟨-, hd⟩ | ⟨-, hd⟩ | ⟨hq', -⟩
  · rcases hs with hs | hs | hs <;> simp [hs] at hend
  · simp [hs] at hend
  · rw [hd] at hend
    rcases waitRspD_cases (u := u) (i := i) with h | h | h | h
    · simp [h] at hend
    · simp [h] at hend
    · simp [h] at hend
    · exact h.2.1
  · simp [hd] at hend
  · exact absurd hq' hq

/-- An answer is due: the handler only answers a request that needs it. -/
structure Due (u : Uncached c) : Prop where
  amo : u.reqQ.op.isAmo = true → u.reqQ.needRsp = true
  answer : u.fsmQ = .coreRsp ∨ u.fsmQ = .amoWriteData → u.reqQ.needRsp = true

theorem Due.step (h : u.Due) (hb : u.fsmQ ≠ .idle) : (u.step i).Due := by
  constructor
  · rw [reqQ_step hb]
    exact h.amo
  · rw [reqQ_step hb]
    intro hf
    rcases step_of_answer hb hf with hq | ⟨-, hd⟩
    · exact h.answer hq
    · exact (needRsp_of_answer hd).elim id h.amo

/-- The answer that the handler has not given yet, by its identifiers. -/
def owed (u : Uncached c) : List (Nat × Nat) :=
  if u.ready = false ∧ u.reqQ.needRsp = true then [(u.reqQ.sid, u.reqQ.tid)] else []

theorem Due.answered (h : u.Due) (hb : u.fsmQ ≠ .idle) :
    (u.answered i.coreRspReady).map (fun x => (x.sid, x.tid)) ++ (u.step i).owed = u.owed := by
  have hready : u.ready = false := by simp [ready, hb]
  have hfsm : (u.step i).fsmQ = u.fsmD i := rfl
  rw [owed, owed, reqQ_step hb, hready]
  by_cases hq : u.fsmQ = .coreRsp
  · have hneed := h.answer (.inl hq)
    cases hv : i.coreRspReady <;>
      simp [Uncached.answered, coreRspValid, coreRsp, ready, hfsm, fsmD, hq, hv, hneed]
  · have hnone : u.answered i.coreRspReady = [] := by simp [Uncached.answered, coreRspValid, hq]
    rw [hnone, List.map_nil, List.nil_append]
    by_cases hend : (u.step i).fsmQ = .idle
    · simp [needRsp_of_end hb hq hend]
    · have hready' : (u.step i).ready = false := by simp [ready, hend]
      rw [hready']

/-! ## The data of the answer -/

/-- The operations that the memory answers with data. -/
def returnsData (op : ReqOp) : Bool := isRead op || op.isAmoRmw

/-- The handler answers such an operation once it has its data. -/
theorem memRead_of_coreRsp (hd : u.waitRspD i = .coreRsp) (hop : returnsData u.reqQ.op = true) :
    i.memRead.isSome = true ∨ u.memRespReadValidQ = true := by
  by_contra hno
  rw [not_or, Bool.not_eq_true, Bool.not_eq_true] at hno
  obtain ⟨h1, h2⟩ := hno
  have hdone : u.rmwDone i = false := by simp [rmwDone, h1, h2]
  cases ho : u.reqQ.op <;> rw [ho] at hop <;>
    simp [waitRspD, h1, hdone, ho, ReqOp.isLoad, ReqOp.isStore] at hd <;>
    simp_all [returnsData, isRead, ReqOp.isAmoRmw, ReqOp.isLoad, ReqOp.isAmo]

/-- The handler is busy with the request `r` and holds what the memory has returned. -/
structure Serving (r : UcReq c) (mem : Nat → Byte) (u : Uncached c) : Prop
    extends Fetches r mem u where
  answer : u.fsmQ = .coreRsp → returnsData r.op = true → Returns r mem u.rspRdataQ

variable {r : UcReq c} {mem : Nat → Byte}

theorem Serving.step (h : u.Serving r mem) (hb : u.fsmQ ≠ .idle)
    (hmem : ∀ x, i.memRead = some x → Returns r mem x.data) : (u.step i).Serving r mem := by
  have hready : u.ready = false := by simp [ready, hb]
  refine ⟨h.toFetches.step hready hmem, ?_⟩
  intro hf hop
  rcases step_cases (i := i) hb with ⟨-, hs | hs⟩ | ⟨hq, hd⟩ | ⟨hq, -⟩ | ⟨hq, -⟩
  · rcases hs with hs | hs | hs <;> simp [hs] at hf
  · simp [hs] at hf
  · rw [hd] at hf
    have hop' : returnsData u.reqQ.op = true := by rw [h.req, hop]
    exact step_returns hmem ((memRead_of_coreRsp hf hop').imp_right (h.read (.inr (.inr hq))))
  · have hsc : r.op ≠ .amoSc := by
      intro ho
      simp [ho, returnsData, isRead, ReqOp.isLoad, ReqOp.isAmoRmw] at hop
    exact step_returns hmem (.inr (h.write hq hsc))
  · exact step_returns hmem (.inr (h.answer hq hop))

/-- The answer of such an operation carries the data. -/
theorem Serving.coreRsp (h : u.Serving r mem) (hf : u.fsmQ = .coreRsp)
    (hop : returnsData r.op = true) : Returns r mem u.coreRsp.rdata := by
  have hsc : u.reqQ.op ≠ .amoSc := by
    rw [h.req]
    intro ho
    simp [ho, returnsData, isRead, ReqOp.isLoad, ReqOp.isAmoRmw] at hop
  have hdata : u.coreRsp.rdata = u.rspRdataQ := if_neg hsc
  rw [hdata]
  exact h.answer hf hop

/-! ## The way to the answer -/

/-- The environment gives nothing of what the handler waits for. -/
def withheld (u : Uncached c) (i : UcIn c) : Bool :=
  match u.fsmQ with
  | .idle => true
  | .memReq =>
    if isRead u.reqQ.op then !i.memReadReady else !i.memWriteReady && !i.memWdataReady
  | .memWReq => !i.memWriteReady
  | .memWdataReq => !i.memWdataReady
  | .memWaitRsp =>
    if isRead u.reqQ.op then i.memRead.isNone
    else if u.reqQ.op.isAmoRmw then i.memRead.isNone && i.memWrite.isNone
    else i.memWrite.isNone
  | .coreRsp => !i.coreRspReady
  | .amoWriteData => false

/-- What is left to do: the two halves of the request, the two responses and the answer. -/
def rank (u : Uncached c) : Nat :=
  match u.fsmQ with
  | .idle => 0
  | .coreRsp => 1
  | .amoWriteData => 2
  | .memWaitRsp => 3 + (!u.memRespReadValidQ).toNat + (!u.memRespWriteValidQ).toNat
  | .memWReq | .memWdataReq => 6
  | .memReq => 7

/-- The request goes to the memory, and the handler does not wait for a response that it has. -/
structure Moves (u : Uncached c) : Prop where
  op : isRead u.reqQ.op = true ∨ isWrite u.reqQ.op = true
  sending : u.fsmQ = .memWReq ∨ u.fsmQ = .memWdataReq → u.memRespWriteValidQ = false
  waiting : u.fsmQ = .memWaitRsp → u.reqQ.op.isAmoRmw = true →
    (u.memRespReadValidQ && u.memRespWriteValidQ) = false

theorem Moves.step (h : u.Moves) (hb : u.fsmQ ≠ .idle) : (u.step i).Moves := by
  have hfsm : (u.step i).fsmQ = u.fsmD i := rfl
  refine ⟨?_, ?_, ?_⟩
  · rw [reqQ_step hb]
    exact h.op
  · intro hf
    by_cases hq : u.fsmQ = .memReq
    · simp [Uncached.step, hq]
    · obtain ⟨-, hwrite, hdata⟩ := step_of_taken (i := i) hb hq
      rw [hwrite, hdata] at hf
      rcases hf with ⟨hq', -⟩ | ⟨hq', -⟩
      · simp [Uncached.step, hq', h.sending (.inl hq')]
      · simp [Uncached.step, hq', h.sending (.inr hq')]
  · rw [reqQ_step hb]
    intro hf hop
    rcases step_cases (i := i) hb with ⟨hs, -⟩ | ⟨hq, hd⟩ | ⟨-, hd⟩ | ⟨-, hd⟩
    · rcases hs with hq | hq | hq
      · simp [Uncached.step, hq]
      · simp [Uncached.step, hq, h.sending (.inl hq)]
      · simp [Uncached.step, hq, h.sending (.inr hq)]
    · -- with both responses the handler would not wait
      have hdone : u.rmwDone i = false := by
        by_contra hdone
        rw [hd, waitRspD_of_rmw hop, if_pos (by simpa using hdone)] at hf
        split_ifs at hf
      have hboth := h.waiting hq hop
      revert hdone hboth
      simp only [rmwDone, Uncached.step, hq]
      cases u.memRespReadValidQ <;> cases u.memRespWriteValidQ <;> cases i.memRead.isSome <;>
        cases i.memWrite.isSome <;> decide
    · simp [hd] at hf
    · rw [hd] at hf
      split_ifs at hf

theorem rank_le_of_wait (h : u.fsmQ = .memWaitRsp) : 3 ≤ u.rank ∧ u.rank ≤ 5 := by
  simp only [rank, h]
  cases u.memRespReadValidQ <;> cases u.memRespWriteValidQ <;> decide

theorem rank_le (u : Uncached c) : u.rank ≤ 7 := by
  cases hq : u.fsmQ with
  | memWaitRsp => exact (rank_le_of_wait hq).2.trans (by decide)
  | _ => simp [rank, hq]

theorem idle_of_rank (h : u.rank = 0) : u.fsmQ = .idle := by
  cases hq : u.fsmQ with
  | idle => rfl
  | memWaitRsp => exact absurd (rank_le_of_wait hq).1 (by simp [h])
  | _ => simp [rank, hq] at h

/-- While it waits for the memory, the handler goes on with a response that it needs. -/
theorem rank_step_of_wait (hq : u.fsmQ = .memWaitRsp) (hr : u.RespOk i)
    (hd : u.waitRspD i = .memWaitRsp) :
    (u.step i).rank + (if u.withheld i then 0 else 1) ≤ u.rank := by
  have hread : i.memRead.isSome = true → u.memRespReadValidQ = false := fun hs => (hr.read hs).2
  have hwrite : i.memWrite.isSome = true → u.memRespWriteValidQ = false := fun hs => (hr.write hs).2
  have hwait : u.withheld i = false → i.memRead.isSome = true ∨ i.memWrite.isSome = true := by
    simp only [withheld, hq]
    split_ifs
    · cases i.memRead <;> simp
    · cases i.memRead <;> cases i.memWrite <;> simp
    · cases i.memWrite <;> simp
  have hnext : (u.step i).rank = 3 + (!(u.memRespReadValidQ || i.memRead.isSome)).toNat +
      (!(u.memRespWriteValidQ || i.memWrite.isSome)).toNat := by
    have hfsm : (u.step i).fsmQ = .memWaitRsp := by
      show u.fsmD i = _
      rw [fsmD, hq]
      exact hd
    rw [rank, hfsm]
    simp [Uncached.step, hq]
  have hnow : u.rank = 3 + (!u.memRespReadValidQ).toNat + (!u.memRespWriteValidQ).toNat := by
    simp [rank, hq]
  rw [hnext, hnow]
  revert hread hwrite hwait
  cases u.withheld i <;> cases u.memRespReadValidQ <;> cases u.memRespWriteValidQ <;>
    cases i.memRead.isSome <;> cases i.memWrite.isSome <;> decide

theorem Moves.rank_step (h : u.Moves) (hb : u.fsmQ ≠ .idle) (hr : u.RespOk i) :
    (u.step i).rank + (if u.withheld i then 0 else 1) ≤ u.rank := by
  have hle : (if u.withheld i then 0 else 1) ≤ 1 := by split_ifs <;> decide
  have hfsm : (u.step i).fsmQ = u.fsmD i := rfl
  have hwait (hf : (u.step i).fsmQ = .memWaitRsp) : (u.step i).rank ≤ 5 := (rank_le_of_wait hf).2
  cases hq : u.fsmQ with
  | idle => contradiction
  | memReq =>
    have hnow : u.rank = 7 := by simp [rank, hq]
    cases hw : isWrite u.reqQ.op with
    | true =>
      have hr : isRead u.reqQ.op = false := not_read_of_isWrite hw
      have hnext := step_of_write (i := i) hq hw
      cases hv : i.memWriteReady <;> cases hd : i.memWdataReady <;> rw [hv, hd] at hnext
      · simp [rank, hnext, withheld, hq, hr, hv, hd]
      · simp [rank, hnext, withheld, hq, hr, hv, hd]
      · simp [rank, hnext, withheld, hq, hr, hv, hd]
      · have := hwait hnext
        omega
    | false =>
      have hr : isRead u.reqQ.op = true := h.op.resolve_right (by simp [hw])
      have hnext := step_of_not_write (i := i) hq hw
      cases hv : i.memReadReady <;> rw [hr, hv] at hnext
      · simp [rank, hnext, withheld, hq, hr, hv]
      · have := hwait hnext
        omega
  | memWReq =>
    have hnow : u.rank = 6 := by simp [rank, hq]
    cases hv : i.memWriteReady with
    | true =>
      have := hwait (by simp [hfsm, fsmD, hq, hv])
      omega
    | false => simp [rank, hfsm, fsmD, withheld, hq, hv]
  | memWdataReq =>
    have hnow : u.rank = 6 := by simp [rank, hq]
    cases hv : i.memWdataReady with
    | true =>
      have := hwait (by simp [hfsm, fsmD, hq, hv])
      omega
    | false => simp [rank, hfsm, fsmD, withheld, hq, hv]
  | memWaitRsp =>
    have hnow := (rank_le_of_wait hq).1
    rcases waitRspD_cases (u := u) (i := i) with hd | hd | hd | ⟨hd, -⟩
    · exact rank_step_of_wait hq hr hd
    · have hnext : (u.step i).rank = 1 := by simp [rank, hfsm, fsmD, hq, hd]
      omega
    · have hnext : (u.step i).rank = 2 := by simp [rank, hfsm, fsmD, hq, hd]
      omega
    · have hnext : (u.step i).rank = 0 := by simp [rank, hfsm, fsmD, hq, hd]
      omega
  | coreRsp => cases hv : i.coreRspReady <;> simp [rank, hfsm, fsmD, withheld, hq, hv]
  | amoWriteData => simp [rank, hfsm, fsmD, withheld, hq]

/-! ## The transaction -/

/-- The handler takes a load, a store or an atomic operation, which needs an answer. -/
structure Begins (u : Uncached c) (i : UcIn c) : Prop where
  ready : u.fsmQ = .idle
  valid : i.reqValid = true
  op : isRead i.req.op = true ∨ isWrite i.req.op = true
  needRsp : i.req.op.isAmo = true → i.req.needRsp = true

/-- The operation goes to the memory: it is not refused, and is not a store-conditional without a
reservation. -/
def forwards (u : Uncached c) (i : UcIn c) : Bool :=
  !(i.req.op.isAmo && refused i) && !(decide (i.req.op = .amoSc) && !u.lrscUcHit i)

theorem idleD_of_op (hv : i.reqValid = true)
    (hop : isRead i.req.op = true ∨ isWrite i.req.op = true) :
    u.idleD i = if u.forwards i then .memReq else .coreRsp := by
  rw [idleD, if_pos hv, forwards]
  generalize i.req.op = op at hop ⊢
  generalize refused i = x
  generalize u.lrscUcHit i = y
  cases op <;> simp [isRead, isWrite, ReqOp.isLoad, ReqOp.isStore, ReqOp.isAmoRmw, ReqOp.isAmo]
    at hop ⊢ <;> cases x <;> simp

theorem Begins.step (h : u.Begins i) :
    (u.step i).reqQ = i.req ∧ (u.step i).fsmQ = if u.forwards i then .memReq else .coreRsp := by
  constructor
  · show (if i.reqValid && u.ready then i.req else u.reqQ) = i.req
    simp [Uncached.ready, h.valid, h.ready]
  · show u.fsmD i = _
    rw [fsmD, h.ready]
    exact idleD_of_op h.valid h.op

theorem Begins.due (h : u.Begins i) : (u.step i).Due := by
  obtain ⟨hreq, hfsm⟩ := h.step
  refine ⟨?_, ?_⟩
  · rw [hreq]
    exact h.needRsp
  · rw [hreq, hfsm]
    intro hf
    apply h.needRsp
    by_contra ha
    have hall : u.forwards i = true := by
      rw [forwards, Bool.eq_false_iff.2 ha]
      have hsc : i.req.op ≠ .amoSc := by
        intro ho
        rw [ho] at ha
        exact ha rfl
      simp [hsc]
    simp [hall] at hf

theorem Begins.serving (h : u.Begins i) (hf : u.forwards i = true) (mem : Nat → Byte) :
    (u.step i).Serving i.req mem := by
  obtain ⟨-, hfsm⟩ := h.step
  rw [hf, if_pos rfl] at hfsm
  have hready : u.ready = true := by simp [Uncached.ready, h.ready]
  refine ⟨fetches_of_accepted hready h.valid, ?_⟩
  rw [hfsm]
  intro hno
  contradiction

theorem Begins.moves (h : u.Begins i) : (u.step i).Moves := by
  obtain ⟨hreq, hfsm⟩ := h.step
  refine ⟨?_, ?_, ?_⟩
  · rw [hreq]
    exact h.op
  · rw [hfsm]
    split_ifs <;> simp
  · rw [hfsm]
    split_ifs <;> simp

end Uncached

/-- A channel carries nothing but what it is expected to carry, and at the end all of it. -/
def Once {α : Type*} (carried expected : List α) (done : Prop) : Prop :=
  carried <+: expected ∧ (done → carried = expected)

theorem Once.of_left {α : Type*} {carried left expected : List α} {done : Prop}
    (h : carried ++ left = expected) (hdone : done → left = []) : Once carried expected done := by
  constructor
  · rw [← h]
    exact List.prefix_append _ _
  · intro hd
    rw [← h, hdone hd, List.append_nil]

namespace MemCfg

variable {k : MemCfg} {u : Uncached k.cfg} {i : UcBusIn k.cfg} {is : List (UcBusIn k.cfg)}

/-- The cycles in which the environment gives something that the handler waits for. -/
def served (k : MemCfg) (u : Uncached k.cfg) (is : List (UcBusIn k.cfg)) : Nat :=
  (trace k.ucStep (fun u i => if u.withheld (k.ucIn u i) then [] else [i]) u is).length

section Run

variable {mem : Nat → Byte} (hbusy : Along k.ucStep (k.Busy mem) u is)
include hbusy

theorem readsTaken_left :
    k.readsTaken u is ++ (k.ucReadOut (run k.ucStep u is)).toList = (k.ucReadOut u).toList :=
  Spends.trace hbusy fun _ _ hb => ucReadOut_spends hb.busy

theorem writesTaken_left :
    k.writesTaken u is ++ (k.ucWriteOut (run k.ucStep u is)).toList = (k.ucWriteOut u).toList :=
  Spends.trace hbusy fun _ _ hb => ucWriteOut_spends hb.busy

theorem datasTaken_left :
    k.datasTaken u is ++ (k.ucDataOut (run k.ucStep u is)).toList = (k.ucDataOut u).toList :=
  Spends.trace hbusy fun _ _ hb => ucDataOut_spends hb.busy

theorem rspsTaken_left (h : u.Due) :
    (k.rspsTaken u is).map (fun x => (x.sid, x.tid)) ++ (run k.ucStep u is).owed = u.owed := by
  have hall := hbusy.strengthen h fun v j hv hb => hv.step hb.busy
  rw [rspsTaken, trace_map]
  apply hall.conserved
  intro v j hv
  exact hv.1.answered (i := k.ucIn v j) hv.2.busy

/-- The answers of a transaction carry the data. -/
theorem rspsTaken_data {r : UcReq k.cfg} (hdvd : k.cfg.reqBytes ∣ k.cfg.memBytes)
    (h : u.Serving r mem) (hop : Uncached.returnsData r.op = true) :
    ∀ x ∈ k.rspsTaken u is, Uncached.Returns r mem x.rdata := by
  have hall := hbusy.strengthen h fun v j hv hb => hv.step (i := k.ucIn v j) hb.busy fun y hy => by
    obtain ⟨x, hx, rfl⟩ := Option.map_eq_some_iff.1 hy
    have hreq : v.reqQ = r := hv.req
    rw [← hreq]
    exact returns_rspRdataD hdvd (hb.delivers x hx)
  have hdata : ∀ v j, v.Serving r mem ∧ k.Busy mem v j →
      ∀ x ∈ v.answered j.core.coreRspReady, Uncached.Returns r mem x.rdata := by
    intro v j hv x hx
    unfold Uncached.answered at hx
    split_ifs at hx with hc
    · rw [List.mem_singleton.1 hx]
      rw [Bool.and_eq_true, Uncached.coreRspValid, decide_eq_true_eq] at hc
      exact hv.1.coreRsp hc.1 hop
    · contradiction
  exact hall.forall_trace hdata

/-- The handler never gets further from the answer, and gets nearer with what it waits for. -/
theorem served_le (h : u.Moves) : (run k.ucStep u is).rank + k.served u is ≤ u.rank := by
  have hall := hbusy.strengthen h fun v j hv hb => hv.step hb.busy
  apply hall.ranked
  intro v j hv
  have hlen : (if v.withheld (k.ucIn v j) then [] else [j]).length =
      if v.withheld (k.ucIn v j) then 0 else 1 := by split_ifs <;> rfl
  rw [hlen]
  exact hv.1.rank_step hv.2.busy hv.2.respOk

end Run

/-- An idle handler offers nothing. -/
theorem out_of_idle (h : u.fsmQ = .idle) :
    k.ucReadOut u = none ∧ k.ucWriteOut u = none ∧ k.ucDataOut u = none ∧ u.owed = [] ∧
      ∀ ready, u.answered ready = [] := by
  simp [ucReadOut, ucWriteOut, ucDataOut, Uncached.memReadValid, Uncached.memWriteValid,
    Uncached.memWdataValid, Uncached.owed, Uncached.answered, Uncached.ready,
    Uncached.coreRspValid, h]

/-- The response of the memory has no part in the start of a transaction. -/
theorem begins_ucIn (h : u.Begins i.core) : u.Begins (k.ucIn u i) :=
  ⟨h.ready, h.valid, h.op, h.needRsp⟩

/-- What the handler offers when it has taken an operation. -/
theorem out_of_begins (h : u.Begins i.core) :
    k.ucReadOut (k.ucStep u i) =
        (if u.forwards i.core && Uncached.isRead i.core.req.op then some (k.ucRead (k.ucStep u i))
          else none) ∧
      k.ucWriteOut (k.ucStep u i) =
        (if u.forwards i.core && Uncached.isWrite i.core.req.op then
          some (k.ucWrite (k.ucStep u i)) else none) ∧
      k.ucDataOut (k.ucStep u i) =
        (if u.forwards i.core && Uncached.isWrite i.core.req.op then
          some (k.ucData (k.ucStep u i)) else none) ∧
      (k.ucStep u i).owed =
        if i.core.req.needRsp then [(i.core.req.sid, i.core.req.tid)] else [] := by
  obtain ⟨hreq, hfsm⟩ := (begins_ucIn h).step
  have hreq' : (k.ucStep u i).reqQ = i.core.req := hreq
  have hfsm' : (k.ucStep u i).fsmQ = if u.forwards i.core then .memReq else .coreRsp := hfsm
  refine ⟨?_, ?_, ?_, ?_⟩
  · rw [ucReadOut, Uncached.memReadValid, hreq', hfsm']
    cases u.forwards i.core <;> rfl
  · rw [ucWriteOut, Uncached.memWriteValid, hreq', hfsm']
    cases u.forwards i.core <;> cases Uncached.isWrite i.core.req.op <;> rfl
  · rw [ucDataOut, Uncached.memWdataValid, hreq', hfsm']
    cases u.forwards i.core <;> cases Uncached.isWrite i.core.req.op <;> rfl
  · rw [Uncached.owed, Uncached.ready, hreq', hfsm']
    cases u.forwards i.core <;> cases i.core.req.needRsp <;> rfl

/-- The cycle in which the handler takes an operation carries nothing. -/
theorem taken_cons (h : u.fsmQ = .idle) :
    k.readsTaken u (i :: is) = k.readsTaken (k.ucStep u i) is ∧
      k.writesTaken u (i :: is) = k.writesTaken (k.ucStep u i) is ∧
      k.datasTaken u (i :: is) = k.datasTaken (k.ucStep u i) is ∧
      k.rspsTaken u (i :: is) = k.rspsTaken (k.ucStep u i) is := by
  obtain ⟨hread, hwrite, hdata, -, hrsp⟩ := out_of_idle (k := k) h
  refine ⟨?_, ?_, ?_, ?_⟩
  · show taken (k.ucReadOut u) _ ++ _ = _
    rw [hread]
    cases i.core.memReadReady <;> rfl
  · show taken (k.ucWriteOut u) _ ++ _ = _
    rw [hwrite]
    cases i.core.memWriteReady <;> rfl
  · show taken (k.ucDataOut u) _ ++ _ = _
    rw [hdata]
    cases i.core.memWdataReady <;> rfl
  · show u.answered _ ++ _ = _
    rw [hrsp]
    rfl

/-- **Transactions are exact.** From the cycle in which an idle handler takes an operation, whatever
the order of the readies and of the responses: a read request, a write request and its data are sent
once when the operation needs them, at its address, and the requester gets one answer when it needs
one, all of them before the handler is idle again. The memory writes the bytes that the request
enables, an answer with data has the bytes of the memory on the lanes of the request, and the
handler is idle after at most seven cycles in which it gets something that it waits for. -/
theorem exact_run (hcl : ∃ n, k.cfg.clBytes = 2 ^ n) (hle : k.cfg.reqBytes ≤ k.cfg.memBytes)
    (h : u.Begins i.core) (hp : i.core.req.Placed) {mem : Nat → Byte}
    (hbusy : Along k.ucStep (k.Busy mem) (k.ucStep u i) is) :
    let r := i.core.req
    let t := k.ucStep u i
    let sends := u.forwards i.core
    let done := (run k.ucStep u (i :: is)).fsmQ = .idle
    Once (k.readsTaken u (i :: is)) (if sends && Uncached.isRead r.op then [k.ucRead t] else [])
        done ∧
      Once (k.writesTaken u (i :: is))
        (if sends && Uncached.isWrite r.op then [k.ucWrite t] else []) done ∧
      Once (k.datasTaken u (i :: is))
        (if sends && Uncached.isWrite r.op then [k.ucData t] else []) done ∧
      Once ((k.rspsTaken u (i :: is)).map fun x => (x.sid, x.tid))
        (if r.needRsp then [(r.sid, r.tid)] else []) done ∧
      ((k.ucRead t).nline = r.nline ∧ (k.ucRead t).off = r.off ∧ (k.ucRead t).size = r.size ∧
        (k.ucRead t).len = 0) ∧
      ((k.ucWrite t).nline = r.nline ∧ (k.ucWrite t).off = r.off ∧ (k.ucWrite t).size = r.size ∧
        (k.ucWrite t).len = 0) ∧
      k.writtenPatch (k.ucWrite t) (k.ucData t) = r.patch ∧
      (sends = true → Uncached.returnsData r.op = true → ∀ x ∈ k.rspsTaken u (i :: is),
        ∀ b < 2 ^ r.size, r.off % k.cfg.reqBytes + b < k.cfg.reqBytes ∧
          x.rdata (r.off % k.cfg.reqBytes + b) = mem (r.off + b)) ∧
      (7 ≤ k.served t is → done) := by
  intro r t sends done
  obtain ⟨hreads, hwrites, hdatas, hrsps⟩ := @taken_cons k u i is h.ready
  obtain ⟨oread, owrite, odata, oowed⟩ := out_of_begins h
  have hbegins := begins_ucIn (k := k) h
  have hreq : t.reqQ = r := hbegins.step.1
  have hdvd := Cfg.reqBytes_dvd_memBytes hcl hle
  have hfit := hp.fits_word hcl
  have hend := fun hd : done => out_of_idle (k := k) (u := run k.ucStep t is) hd
  rw [hreads, hwrites, hdatas, hrsps]
  refine ⟨?_, ?_, ?_, ?_, ?_, ?_, ?_, ?_, ?_⟩
  · have hleft := readsTaken_left hbusy
    rw [oread] at hleft
    apply Once.of_left (hleft.trans (by split_ifs <;> rfl))
    intro hd
    rw [(hend hd).1]
    rfl
  · have hleft := writesTaken_left hbusy
    rw [owrite] at hleft
    apply Once.of_left (hleft.trans (by split_ifs <;> rfl))
    intro hd
    rw [(hend hd).2.1]
    rfl
  · have hleft := datasTaken_left hbusy
    rw [odata] at hleft
    apply Once.of_left (hleft.trans (by split_ifs <;> rfl))
    intro hd
    rw [(hend hd).2.2.1]
    rfl
  · have hleft := rspsTaken_left hbusy hbegins.due
    rw [oowed] at hleft
    apply Once.of_left hleft
    intro hd
    exact (hend hd).2.2.2.1
  · show (t.reqQ.nline = _ ∧ t.reqQ.off = _ ∧ t.reqQ.size = _ ∧ _)
    rw [hreq]
    exact ⟨rfl, rfl, rfl, rfl⟩
  · show (t.reqQ.nline = _ ∧ t.reqQ.off = _ ∧ t.reqQ.size = _ ∧ _)
    rw [hreq]
    exact ⟨rfl, rfl, rfl, rfl⟩
  · change r.Placed at hp
    change r.off % _ + 2 ^ r.size ≤ _ at hfit
    rw [← hreq] at hp hfit ⊢
    exact writtenPatch_ucData hdvd hp hfit
  · intro hs hop x hx b hb
    have hserving := hbegins.serving hs mem
    have hlt : r.off % k.cfg.reqBytes + b < k.cfg.reqBytes :=
      Nat.lt_of_lt_of_le (Nat.add_lt_add_left hb _) hfit
    exact ⟨hlt, rspsTaken_data hbusy hdvd hserving hop x hx b hb⟩
  · intro hserved
    have hsum : (run k.ucStep t is).rank + k.served t is ≤ t.rank :=
      served_le hbusy hbegins.moves
    have htop : t.rank ≤ 7 := Uncached.rank_le t
    apply Uncached.idle_of_rank
    show (run k.ucStep t is).rank = 0
    omega

/-! ## A write whose data go first -/

/-- Words of the memory of two words of the request. -/
def twoWords : MemCfg where
  cfg := Uncached.amoCfg
  memIdWidth := 4
  mshrSets_pow := ⟨1, rfl⟩
  mshr_ids := by decide
  wbuf_ids := by decide
  flush_ids := by decide
  resizable := by decide

/-- An AND in the upper half of the second word of the request. -/
def amoAndIn : UcBusIn twoWords.cfg where
  core := { Uncached.quietIn Uncached.amoCfg with
    reqValid := true
    req := { (Cache.blankUc Uncached.amoCfg).reqQ with
      op := .amoAnd, off := 12, size := 2, be := fun b => decide (4 ≤ b ∧ b < 8)
      uc := true, needRsp := true } }
  memRespRead := none

/-- Each byte of the memory has its own address. -/
def amoAndRead : MemRespR := ⟨false, fun b => BitVec.ofNat 8 b⟩

/-- The data are taken before the address, and the write response comes before the read response. -/
def amoAndIns : List (UcBusIn twoWords.cfg) :=
  [⟨{ Uncached.quietIn Uncached.amoCfg with memWriteReady := false }, none⟩,
    ⟨Uncached.quietIn Uncached.amoCfg, none⟩,
    ⟨{ Uncached.quietIn Uncached.amoCfg with memWrite := some ⟨false, true⟩ }, none⟩,
    ⟨Uncached.quietIn Uncached.amoCfg, some amoAndRead⟩,
    ⟨Uncached.quietIn Uncached.amoCfg, none⟩]

theorem exact_amoAnd :
    let u := Cache.blankUc Uncached.amoCfg
    let t := twoWords.ucStep u amoAndIn
    twoWords.writesTaken u (amoAndIn :: amoAndIns) = [twoWords.ucWrite t] ∧
      twoWords.datasTaken u (amoAndIn :: amoAndIns) = [twoWords.ucData t] ∧
      twoWords.writtenPatch (twoWords.ucWrite t) (twoWords.ucData t) = amoAndIn.core.req.patch ∧
      ∀ x ∈ twoWords.rspsTaken u (amoAndIn :: amoAndIns), ∀ b < 4,
        x.rdata (4 + b) = BitVec.ofNat 8 (12 + b) := by
  intro u t
  have hp : amoAndIn.core.req.Placed := by
    refine ⟨by decide, by decide, ?_⟩
    intro b hb
    exact of_decide_eq_true hb
  have hbusy : Along twoWords.ucStep (twoWords.Busy fun a => BitVec.ofNat 8 a) t amoAndIns := by
    refine ⟨⟨nofun, ⟨nofun, nofun⟩, nofun⟩, ⟨nofun, ⟨nofun, nofun⟩, nofun⟩,
      ⟨nofun, ⟨fun _ => ⟨rfl, rfl⟩, nofun⟩, nofun⟩,
      ⟨nofun, ⟨nofun, fun _ => ⟨.inl rfl, rfl⟩⟩, ?_⟩, ⟨nofun, ⟨nofun, nofun⟩, nofun⟩, trivial⟩
    intro x hx b _
    rw [← Option.some.inj hx]
    rfl
  obtain ⟨-, hw, hd, -, -, -, hpatch, hdata, -⟩ :=
    exact_run (u := u) (i := amoAndIn) ⟨4, rfl⟩ (by decide) ⟨rfl, rfl, .inr rfl, fun _ => rfl⟩ hp
      hbusy
  exact ⟨hw.2 rfl, hd.2 rfl, hpatch, fun x hx b hb => (hdata rfl rfl x hx b hb).2⟩

end MemCfg

end Hpdcache
