import Hpdcache.Lib.System
import Hpdcache.Quiet

/-!
# Errors of atomic operations

An atomic operation that reads and writes the memory gets two responses, in any order, and the read
response may arrive while the handler still waits to send the write data. The answer of the handler
carries what the error flag has registered of them.

* `Uncached.Txn` — the handler is in the middle of such an operation.
* `Uncached.rspError_run` — the flag at the end is the error of a response that the handler was
  waiting for.
* `Uncached.errorReported_iff` — the answer reports the errors unless the read response alone is in
  error and arrives before the write data is accepted.
-/

namespace Hpdcache

open Hw

namespace Uncached

variable {c : Cfg} {u : Uncached c} {i : UcIn c}

/-! ## The responses of the memory -/

/-- What the assertions of the handler require of the memory: a write response comes once the
write is sent, a read response once its address is, and each comes once. -/
structure RespOk (u : Uncached c) (i : UcIn c) : Prop where
  write : i.memWrite.isSome = true → u.fsmQ = .memWaitRsp ∧ u.memRespWriteValidQ = false
  read : i.memRead.isSome = true →
    (u.fsmQ = .memWaitRsp ∨ (u.fsmQ = .memWdataReq ∧ u.reqQ.op.isAmoRmw = true)) ∧
      u.memRespReadValidQ = false

/-- The handler takes and forwards an atomic operation that needs both responses. -/
structure Forwards (u : Uncached c) (i : UcIn c) : Prop where
  ready : u.ready = true
  valid : i.reqValid = true
  rmw : i.req.op.isAmoRmw = true
  needRsp : i.req.needRsp = true
  not_refused : refused i = false

/-- A cycle of the operation that is not the one of the answer. -/
def Waits (u : Uncached c) (i : UcIn c) : Prop := RespOk u i ∧ u.coreRspValid = false

/-- A write response in error is received. -/
def writeError (is : List (UcIn c)) : Bool := is.any wrError

/-- A read response in error is received. -/
def readError (is : List (UcIn c)) : Bool := is.any rdError

/-- A read response in error is received before the write data is accepted. -/
def readErrorEarly : Uncached c → List (UcIn c) → Bool
  | _, [] => false
  | u, i :: is => (decide (u.fsmQ = .memWdataReq) && rdError i) || readErrorEarly (u.step i) is

/-- A read response in error is received after the write data is accepted. -/
def readErrorLate : Uncached c → List (UcIn c) → Bool
  | _, [] => false
  | u, i :: is => (decide (u.fsmQ ≠ .memWdataReq) && rdError i) || readErrorLate (u.step i) is

theorem readError_split (u : Uncached c) (is : List (UcIn c)) :
    readError is = (readErrorEarly u is || readErrorLate u is) := by
  induction is generalizing u with
  | nil => rfl
  | cons i is ih =>
    rw [readErrorEarly, readErrorLate, readError, List.any_cons]
    change (rdError i || readError is) = _
    rw [ih (u.step i)]
    by_cases h : u.fsmQ = .memWdataReq
    · simp [h, Bool.or_assoc]
    · simp only [h, decide_false, Bool.false_and, Bool.false_or, ne_eq, not_false_eq_true,
        decide_true, Bool.true_and]
      rw [Bool.or_left_comm]

/-- The handler writes nothing in the data RAM. -/
def LocalUntouched (u : Uncached c) (is : List (UcIn c)) : Prop :=
  Along step (fun u _ => u.dataAmoWrite = false) u is

/-! ## The error flag between the operations -/

/-- The flag is set only between a response in error and the answer. -/
def FlagPends (u : Uncached c) : Prop :=
  u.rspErrorQ = true →
    (u.fsmQ = .memWaitRsp ∧ u.reqQ.needRsp = true) ∨ u.fsmQ = .amoWriteData ∨ u.fsmQ = .coreRsp

theorem flagPends_reset (u : Uncached c) : u.reset.FlagPends := fun h => absurd h (by simp [reset])

theorem waitRspD_of_needRsp (h : u.reqQ.needRsp = true) :
    u.waitRspD i = .memWaitRsp ∨ u.waitRspD i = .amoWriteData ∨ u.waitRspD i = .coreRsp := by
  unfold waitRspD
  simp only [h, if_true]
  split_ifs <;> simp

theorem idleD_of_flagged (h : u.fsmQ = .idle) (he : u.rspErrorSet i = true) :
    u.idleD i = .coreRsp := by
  simp only [rspErrorSet, h, Bool.and_eq_true] at he
  obtain ⟨hv, he⟩ := he
  unfold idleD
  rw [if_pos hv]
  cases hop : i.req.op <;> simp_all [ReqOp.isLoad, ReqOp.isStore, ReqOp.isAmo, ReqOp.isAmoRmw]

theorem FlagPends.step (h : u.FlagPends) : (u.step i).FlagPends := by
  intro he
  change setRst u.rspErrorQ (u.rspErrorSet i) (u.coreRspValid && i.coreRspReady) = true at he
  have hreq : u.fsmQ ≠ .idle → (u.step i).reqQ = u.reqQ := by
    intro hf
    simp [Uncached.step, ready, hf]
  change ((u.fsmD i = .memWaitRsp ∧ _) ∨ u.fsmD i = .amoWriteData ∨ u.fsmD i = .coreRsp)
  cases hq : u.rspErrorQ with
  | false =>
    rw [hq, setRst_false_left] at he
    cases hf : u.fsmQ <;> try (simp [rspErrorSet, hf] at he; done)
    · right; right
      simpa [fsmD, hf] using idleD_of_flagged hf he
    · simp only [rspErrorSet, hf, Bool.and_eq_true] at he
      rw [hreq (by simp [hf])]
      have := waitRspD_of_needRsp (i := i) he.1
      simpa [fsmD, hf, he.1] using this
  | true =>
    rw [hq, setRst_true_left, Bool.not_eq_true'] at he
    obtain ⟨hf, hn⟩ | hf | hf := h hq
    · rw [hreq (by simp [hf])]
      have := waitRspD_of_needRsp (i := i) hn
      simpa [fsmD, hf, hn] using this
    · simp [fsmD, hf]
    · have hr : i.coreRspReady = false := by simpa [coreRspValid, hf] using he
      simp [fsmD, hf, hr]

theorem flagPends_run (u : Uncached c) (is : List (UcIn c)) : (run step u.reset is).FlagPends :=
  run_invariant (flagPends_reset u) fun _ _ h => h.step

/-! ## One operation -/

/-- The handler is in the middle of an operation that needs both responses. -/
structure Txn (u : Uncached c) : Prop where
  busy : u.fsmQ ≠ .idle
  rmw : u.reqQ.op.isAmoRmw = true
  needRsp : u.reqQ.needRsp = true
  sending : u.fsmQ = .memReq ∨ u.fsmQ = .memWReq ∨ u.fsmQ = .memWdataReq → u.rspErrorQ = false
  writing : u.fsmQ = .amoWriteData → u.rspErrorQ = false

theorem Forwards.txn (h : Forwards u i) (hf : u.FlagPends) : (u.step i).Txn := by
  obtain ⟨hready, hv, hrmw, hneed, href⟩ := h
  have hidle : u.fsmQ = .idle := by simpa [Uncached.ready] using hready
  have hq : u.rspErrorQ = false := by
    cases hq : u.rspErrorQ with
    | false => rfl
    | true => simpa [hidle] using hf hq
  have hld : i.req.op.isLoad = false ∧ i.req.op.isStore = false ∧ i.req.op.isAmo = true := by
    cases hop : i.req.op <;> simp_all [ReqOp.isLoad, ReqOp.isStore, ReqOp.isAmo, ReqOp.isAmoRmw]
  have hfsm : (u.step i).fsmQ = .memReq := by
    change u.fsmD i = _
    simp [fsmD, hidle, idleD, hv, hrmw, href, hld]
  have hreq : (u.step i).reqQ = i.req := by simp [Uncached.step, hv, hready]
  have herr : (u.step i).rspErrorQ = false := by
    change setRst u.rspErrorQ (u.rspErrorSet i) _ = false
    simp [hq, rspErrorSet, hidle, hv, hld, href]
  exact ⟨by simp [hfsm], by rw [hreq, hrmw], by rw [hreq, hneed], fun _ => herr, fun _ => herr⟩

theorem rdError_of_none (h : i.memRead.isSome = false) : rdError i = false := by
  cases hr : i.memRead with
  | none => simp [rdError, hr]
  | some r => simp [hr] at h

theorem wrError_of_none (h : i.memWrite.isSome = false) : wrError i = false := by
  cases hw : i.memWrite with
  | none => simp [wrError, hw]
  | some r => simp [hw] at h

/-- No response is received but in the two states that wait for one. -/
theorem Waits.silent (hw : Waits u i) (hf : u.fsmQ ≠ .memWaitRsp) :
    wrError i = false ∧ (u.fsmQ ≠ .memWdataReq → rdError i = false) := by
  constructor
  · refine wrError_of_none (Bool.eq_false_iff.2 fun hs => hf (hw.1.write hs).1)
  · intro hd
    refine rdError_of_none (Bool.eq_false_iff.2 fun hs => ?_)
    obtain ⟨hr | ⟨hr, -⟩, -⟩ := hw.1.read hs
    · exact hf hr
    · exact hd hr

/-- Such an operation ends with the second of its responses. -/
theorem waitRspD_of_rmw (h : u.reqQ.op.isAmoRmw = true) :
    u.waitRspD i =
      if u.rmwDone i then
        (if u.reqQ.uc || u.rspErrorQ || rdError i || wrError i || !u.reqHit then .coreRsp
          else .amoWriteData)
      else .memWaitRsp := by
  have hop : u.reqQ.op.isLoad = false ∧ u.reqQ.op.isStore = false ∧
      u.reqQ.op ≠ .amoLr ∧ u.reqQ.op ≠ .amoSc := by
    cases hop : u.reqQ.op <;>
      simp_all [ReqOp.isLoad, ReqOp.isStore, ReqOp.isAmoRmw, ReqOp.isAmo]
  simp [waitRspD, hop, h]

theorem Txn.step_reqQ (h : u.Txn) : (u.step i).reqQ = u.reqQ := by
  simp [Uncached.step, Uncached.ready, h.busy]

section Step

variable (h : u.Txn) (hw : Waits u i)
include h hw

/-- The flag registers the errors that are received after the write data is accepted. -/
theorem Txn.step_rspErrorQ :
    (u.step i).rspErrorQ =
      (u.rspErrorQ || (decide (u.fsmQ ≠ .memWdataReq) && rdError i) || wrError i) := by
  change setRst u.rspErrorQ (u.rspErrorSet i) (u.coreRspValid && i.coreRspReady) = _
  have hc : u.coreRspValid = false := hw.2
  rw [hc, Bool.false_and]
  by_cases hf : u.fsmQ = .memWaitRsp
  · cases u.rspErrorQ <;> simp [rspErrorSet, hf, h.needRsp]
  · have hs : u.rspErrorSet i = false := by
      have hb := h.busy
      cases hfsm : u.fsmQ <;> simp_all [rspErrorSet]
    obtain ⟨hwr, hrd⟩ := hw.silent hf
    rw [hs, hwr, setRst_idle]
    by_cases hd : u.fsmQ = .memWdataReq
    · simp [hd]
    · simp [hrd hd]

/-- The state after a cycle in which both responses are not there yet, or are. -/
theorem Txn.fsm_cases :
    (u.fsmQ = .amoWriteData ∧ (u.step i).fsmQ = .coreRsp) ∨
    (u.fsmQ = .memWaitRsp ∧ (u.step i).fsmQ = .amoWriteData ∧
      (u.step i).rspErrorQ = false) ∨
    (u.fsmQ = .memWaitRsp ∧ ((u.step i).fsmQ = .memWaitRsp ∨ (u.step i).fsmQ = .coreRsp)) ∨
    ((u.fsmQ = .memReq ∨ u.fsmQ = .memWReq ∨ u.fsmQ = .memWdataReq) ∧
      ((u.step i).fsmQ = .memReq ∨ (u.step i).fsmQ = .memWReq ∨ (u.step i).fsmQ = .memWdataReq ∨
        (u.step i).fsmQ = .memWaitRsp)) := by
  have hop : isRead u.reqQ.op = false ∧ isWrite u.reqQ.op = true := by
    have hr := h.rmw
    cases hop : u.reqQ.op <;>
      simp_all [isRead, isWrite, ReqOp.isLoad, ReqOp.isStore, ReqOp.isAmoRmw, ReqOp.isAmo]
  have hd : (u.step i).fsmQ = u.fsmD i := rfl
  cases hf : u.fsmQ with
  | idle => exact absurd hf h.busy
  | coreRsp => exact absurd hw.2 (by simp [coreRspValid, hf])
  | amoWriteData => exact .inl ⟨rfl, by rw [hd]; simp [fsmD, hf]⟩
  | memReq =>
    right; right; right
    rw [hd]
    simp only [fsmD, hf, memReqD, hop]
    cases i.memWriteReady <;> cases i.memWdataReady <;> simp
  | memWReq =>
    right; right; right
    rw [hd]
    simp only [fsmD, hf]
    cases i.memWriteReady <;> simp
  | memWdataReq =>
    right; right; right
    rw [hd]
    simp only [fsmD, hf]
    cases i.memWdataReady <;> simp
  | memWaitRsp =>
    right
    rw [hd, h.step_rspErrorQ hw, hf]
    simp only [fsmD, hf, waitRspD_of_rmw h.rmw]
    split_ifs with h1 h2
    · simp
    · left
      simp only [Bool.or_eq_true, not_or, Bool.not_eq_true] at h2
      simp [h2]
    · simp

theorem Txn.step : (u.step i).Txn := by
  have hreq := h.step_reqQ (i := i)
  refine ⟨?_, by rw [hreq, h.rmw], by rw [hreq, h.needRsp], fun hs => ?_, fun hs => ?_⟩
  · obtain ⟨-, hd⟩ | ⟨-, hd, -⟩ | ⟨-, hd | hd⟩ | ⟨-, hd | hd | hd | hd⟩ := h.fsm_cases hw <;>
      simp [hd]
  · obtain ⟨-, hd⟩ | ⟨-, hd, -⟩ | ⟨-, hd | hd⟩ | ⟨hf, -⟩ := h.fsm_cases hw
    · simp [hd] at hs
    · simp [hd] at hs
    · simp [hd] at hs
    · simp [hd] at hs
    · have hne : u.fsmQ ≠ .memWaitRsp := by rcases hf with hf | hf | hf <;> simp [hf]
      obtain ⟨hwr, hrd⟩ := hw.silent hne
      rw [h.step_rspErrorQ hw, h.sending hf, hwr]
      by_cases hd : u.fsmQ = .memWdataReq
      · simp [hd]
      · simp [hrd hd]
  · obtain ⟨-, hd⟩ | ⟨-, -, he⟩ | ⟨-, hd | hd⟩ | ⟨-, hd | hd | hd | hd⟩ := h.fsm_cases hw <;>
      first | exact he | simp [hd] at hs

/-- The write data has been accepted. -/
def Sent (u : Uncached c) : Prop :=
  u.fsmQ = .memWaitRsp ∨ u.fsmQ = .amoWriteData ∨ u.fsmQ = .coreRsp

theorem Txn.step_sent (hs : u.Sent) : (u.step i).Sent := by
  obtain ⟨-, hd⟩ | ⟨-, hd, -⟩ | ⟨-, hd | hd⟩ | ⟨hq, -⟩ := h.fsm_cases hw
  · simp [Sent, hd]
  · simp [Sent, hd]
  · simp [Sent, hd]
  · simp [Sent, hd]
  · rcases hs with hs | hs | hs <;> simp [hs] at hq

end Step

/-! ## The run of an operation -/

/-- The flag at the end is the error of a response that the handler was waiting for. -/
theorem rspError_run {is : List (UcIn c)} (h : u.Txn) (hw : Along step Waits u is) :
    (run step u is).rspErrorQ = (u.rspErrorQ || readErrorLate u is || writeError is) := by
  induction is generalizing u with
  | nil => simp [readErrorLate, writeError]
  | cons i is ih =>
    obtain ⟨hi, his⟩ := hw
    rw [run_cons, ih (h.step hi) his, h.step_rspErrorQ hi, readErrorLate]
    simp only [writeError, List.any_cons]
    simp only [Bool.or_assoc, Bool.or_left_comm, Bool.or_comm]

/-- Once the read response has been received no other one is. -/
theorem readErrorLate_of_received {is : List (UcIn c)} (h : u.Txn) (hw : Along step Waits u is)
    (hr : u.memRespReadValidQ = true) (hf : u.fsmQ ≠ .memReq ∧ u.fsmQ ≠ .memWReq) :
    readErrorLate u is = false := by
  induction is generalizing u with
  | nil => rfl
  | cons i is ih =>
    obtain ⟨hi, his⟩ := hw
    have hrd : rdError i = false := by
      refine rdError_of_none (Bool.eq_false_iff.2 fun hs => ?_)
      rw [(hi.1.read hs).2] at hr
      contradiction
    have hr' : (u.step i).memRespReadValidQ = true := by
      have hb := h.busy
      cases hfsm : u.fsmQ <;> simp_all [Uncached.step]
    have hf' : (u.step i).fsmQ ≠ .memReq ∧ (u.step i).fsmQ ≠ .memWReq := by
      obtain ⟨-, hd⟩ | ⟨-, hd, -⟩ | ⟨-, hd | hd⟩ | ⟨hq | hq | hq, -⟩ := h.fsm_cases hi
      · simp [hd]
      · simp [hd]
      · simp [hd]
      · simp [hd]
      · exact absurd hq hf.1
      · exact absurd hq hf.2
      · have hd : (u.step i).fsmQ = u.fsmD i := rfl
        rw [hd]
        simp only [fsmD, hq]
        cases i.memWdataReady <;> simp
    rw [readErrorLate, hrd, ih (h.step hi) his hr' hf']
    simp

/-- Once the write data has been accepted no error comes too early any more. -/
theorem readErrorEarly_of_sent {is : List (UcIn c)} (h : u.Txn) (hw : Along step Waits u is)
    (hs : u.Sent) : readErrorEarly u is = false := by
  induction is generalizing u with
  | nil => rfl
  | cons i is ih =>
    obtain ⟨hi, his⟩ := hw
    rw [readErrorEarly, ih (h.step hi) his (h.step_sent hi hs)]
    rcases hs with hs | hs | hs <;> simp [hs]

/-- An error received before the write data is accepted is the only error of the read. -/
theorem readErrorLate_of_early {is : List (UcIn c)} (h : u.Txn) (hw : Along step Waits u is)
    (he : readErrorEarly u is = true) : readErrorLate u is = false := by
  induction is generalizing u with
  | nil => rfl
  | cons i is ih =>
    obtain ⟨hi, his⟩ := hw
    rw [readErrorEarly, Bool.or_eq_true, Bool.and_eq_true, decide_eq_true_eq] at he
    rw [readErrorLate]
    rcases he with ⟨hf, hrd⟩ | he
    · have hs : i.memRead.isSome = true := by
        cases hm : i.memRead with
        | none => simp [rdError, hm] at hrd
        | some r => rfl
      have hr' : (u.step i).memRespReadValidQ = true := by simp [Uncached.step, hf, hs]
      have hf' : (u.step i).fsmQ ≠ .memReq ∧ (u.step i).fsmQ ≠ .memWReq := by
        have hd : (u.step i).fsmQ = u.fsmD i := rfl
        rw [hd]
        simp only [fsmD, hf]
        cases i.memWdataReady <;> simp
      rw [readErrorLate_of_received (h.step hi) his hr' hf', hf]
      simp
    · have hrd : rdError i = false ∨ u.fsmQ = .memWdataReq := by
        by_contra hno
        rw [not_or, Bool.not_eq_false] at hno
        have hs : i.memRead.isSome = true := by
          cases hm : i.memRead with
          | none => simp [rdError, hm] at hno
          | some r => rfl
        have hf : u.fsmQ = .memWaitRsp :=
          ((hi.1.read hs).1).resolve_right fun hx => hno.2 hx.1
        rw [readErrorEarly_of_sent (h.step hi) his (h.step_sent hi (.inl hf))] at he
        contradiction
      rw [ih (h.step hi) his he]
      rcases hrd with hrd | hf
      · simp [hrd]
      · simp [hf]

/-- The data RAM is written only when the flag is low, and stays low until the answer. -/
theorem localUntouched_of_error {is : List (UcIn c)} (h : u.Txn) (hw : Along step Waits u is)
    (he : (run step u is).rspErrorQ = true) : LocalUntouched u is := by
  induction is generalizing u with
  | nil => exact trivial
  | cons i is ih =>
    obtain ⟨hi, his⟩ := hw
    refine ⟨?_, ih (h.step hi) his he⟩
    change decide (u.fsmQ = .amoWriteData) = false
    rw [decide_eq_false_iff_not]
    intro hf
    have hd : (u.step i).fsmQ = .coreRsp := by
      change u.fsmD i = _
      simp [fsmD, hf]
    cases is with
    | cons j js => exact absurd his.1.2 (by simp [coreRspValid, hd])
    | nil =>
      obtain ⟨hwr, hrd⟩ := hi.silent (by simp [hf])
      rw [run_cons, run_nil, h.step_rspErrorQ hi, h.writing hf, hwr, hrd (by simp [hf])] at he
      simp at he

/-! ## What the answer reports -/

/-- The answer carries an error exactly when a response did, and then the data RAM has not been
written. -/
def ErrorReported (u : Uncached c) (is : List (UcIn c)) : Prop :=
  ((run step u is).coreRsp.error = true ↔ readError is = true ∨ writeError is = true) ∧
    ((run step u is).coreRsp.error = true → LocalUntouched u is)

/-- From any reachable state, an operation that is forwarded reports the errors of its responses if
and only if the read response does not bring the only error before the write data is accepted. -/
theorem errorReported_iff (u : Uncached c) (pre : List (UcIn c)) (i : UcIn c)
    (is : List (UcIn c)) (hfwd : Forwards (run step u.reset pre) i)
    (hw : Along step Waits ((run step u.reset pre).step i) is) :
    ErrorReported ((run step u.reset pre).step i) is ↔
      (readErrorEarly ((run step u.reset pre).step i) is = true → writeError is = true) := by
  have ht : ((run step u.reset pre).step i).Txn := hfwd.txn (flagPends_run u pre)
  have hq : ((run step u.reset pre).step i).rspErrorQ = false := by
    have hidle : (run step u.reset pre).fsmQ = .idle := by simpa [ready] using hfwd.ready
    have hd : ((run step u.reset pre).step i).fsmQ = .memReq := by
      obtain ⟨-, hv, hrmw, -, href⟩ := hfwd
      change (run step u.reset pre).fsmD i = _
      have hld : i.req.op.isLoad = false ∧ i.req.op.isStore = false := by
        cases hop : i.req.op <;> simp_all [ReqOp.isLoad, ReqOp.isStore, ReqOp.isAmoRmw, ReqOp.isAmo]
      simp [fsmD, hidle, idleD, hv, hrmw, href, hld]
    exact ht.sending (.inl hd)
  generalize (run step u.reset pre).step i = v at ht hq hw ⊢
  have herr : (run step v is).coreRsp.error = (readErrorLate v is || writeError is) := by
    change (run step v is).rspErrorQ = _
    rw [rspError_run ht hw, hq, Bool.false_or]
  have huntouched : (run step v is).coreRsp.error = true → LocalUntouched v is :=
    fun he => localUntouched_of_error ht hw he
  unfold ErrorReported
  rw [and_iff_left huntouched, herr, readError_split v]
  simp only [Bool.or_eq_true]
  constructor
  · intro hiff hearly
    refine (hiff.2 (.inl (.inl hearly))).resolve_left fun hl => ?_
    rw [readErrorLate_of_early ht hw hearly] at hl
    contradiction
  · intro hcond
    constructor
    · rintro (hl | hwr)
      · exact .inl (.inr hl)
      · exact .inr hwr
    · rintro ((he | hl) | hwr)
      · exact .inr (hcond he)
      · exact .inl hl
      · exact .inr hwr

/-! ## A read response that brings its error too early -/

/-- The memory accepts everything and answers nothing. -/
def quietIn (c : Cfg) : UcIn c where
  reqValid := false
  req := (Cache.blankUc c).reqQ
  lrscSnoop := false
  lrscSnoopNline := Nline.zero c
  lrscSnoopOff := 0
  lrscSnoopSize := 0
  coreRspReady := true
  memReadReady := true
  memWriteReady := true
  memWdataReady := true
  memRead := none
  memWrite := none
  cfgErrorOnCacheableAmo := false

def amoCfg : Cfg :=
  Cfg.small true true true false (Cfg.policy_wt true) (Cfg.latency_noEcc true)

/-- An addition in a line that is in the cache. -/
def amoAddIn : UcIn amoCfg :=
  { quietIn amoCfg with
    reqValid := true
    req := { (Cache.blankUc amoCfg).reqQ with
      op := .amoAdd, size := 3, be := fun b => decide (b < 8), needRsp := true
      hitWay := fun w => decide (w.val = 0) } }

/-- The address is accepted two cycles before the data, and the read response, with the given
error, comes in between. -/
def amoAddRsps (readErr writeErr : Bool) : List (UcIn amoCfg) :=
  [{ quietIn amoCfg with memWdataReady := false },
    { quietIn amoCfg with memWdataReady := false, memRead := some ⟨readErr, fun _ => 0⟩ },
    quietIn amoCfg,
    { quietIn amoCfg with memWrite := some ⟨writeErr, false⟩ }]

/-- The error is lost: the answer has none, and the local copy has been written. -/
theorem amoAdd_not_errorReported :
    Forwards (run step (Cache.blankUc amoCfg).reset []) amoAddIn ∧
      Along step Waits ((Cache.blankUc amoCfg).reset.step amoAddIn)
        (amoAddRsps true false ++ [quietIn amoCfg]) ∧
      ¬ ErrorReported ((Cache.blankUc amoCfg).reset.step amoAddIn)
        (amoAddRsps true false ++ [quietIn amoCfg]) := by
  refine ⟨⟨rfl, rfl, rfl, rfl, rfl⟩, ?_, fun h => ?_⟩
  · refine ⟨⟨⟨nofun, nofun⟩, rfl⟩, ⟨⟨nofun, fun _ => ⟨.inr ⟨rfl, rfl⟩, rfl⟩⟩, rfl⟩,
      ⟨⟨nofun, nofun⟩, rfl⟩, ⟨⟨fun _ => ⟨rfl, rfl⟩, nofun⟩, rfl⟩, ⟨⟨nofun, nofun⟩, rfl⟩, trivial⟩
  · exact absurd (h.1.2 (.inl rfl)) (by decide +kernel)

/-- Both responses are in error: the answer reports it. -/
theorem errorReported_iff_amoAdd :
    ErrorReported ((Cache.blankUc amoCfg).reset.step amoAddIn) (amoAddRsps true true) := by
  have hw : Along step Waits ((Cache.blankUc amoCfg).reset.step amoAddIn)
      (amoAddRsps true true) :=
    ⟨⟨⟨nofun, nofun⟩, rfl⟩, ⟨⟨nofun, fun _ => ⟨.inr ⟨rfl, rfl⟩, rfl⟩⟩, rfl⟩,
      ⟨⟨nofun, nofun⟩, rfl⟩, ⟨⟨fun _ => ⟨rfl, rfl⟩, nofun⟩, rfl⟩, trivial⟩
  exact (errorReported_iff (Cache.blankUc amoCfg) [] amoAddIn (amoAddRsps true true)
    ⟨rfl, rfl, rfl, rfl, rfl⟩ hw).2 fun _ => rfl

end Uncached

end Hpdcache
