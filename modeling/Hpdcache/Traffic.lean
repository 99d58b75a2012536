import Hpdcache.MemId
import Hpdcache.Reachable
import Hpdcache.Top

/-!
# The traffic on the memory channels

The transactions of the cache in flight on the read and on the write channel. A transaction starts
when the unit that asks for it hands it over, and ends when the memory answers it; an atomic
operation that reads and writes has a read half that starts with its write. The responses come
with the identifier of their transaction, and are given to the unit that the identifier tells.

**Requirement.** A response of the memory has the identifier of a transaction in flight.

* `Traffic.Inv.step` — a slot is used by one miss at most, from its request to its acknowledge.
* `Traffic.routed_run` — the identifiers in flight are distinct, and those of the responses lead
  back to where the transactions come from, as long as no miss is allocated in a full set of the
  MSHR.
-/

namespace Hpdcache

open Hw

variable {c : Cfg}

/-! ## The slots of the miss handler -/

namespace MissHandler

variable {m : MissHandler c} {i : MissIn c}

/-- The slot of the miss whose request is being sent. -/
def sending (m : MissHandler c) : List (ReadUnit c) :=
  match m.reqFsmQ with
  | .idle => []
  | .send => [.miss (Mshr.setOf m.allocNlineQ) m.allocWayQ]

def respUnit (r : MissResp c) : ReadUnit c := .miss r.rSet r.rWay

/-- The refill FSM has acknowledged the entry of the response at the head of the buffer. -/
def acked (m : MissHandler c) : Bool :=
  decide (m.refillFsmQ = .write) || decide (m.refillFsmQ = .writeDir)

/-- The responses in the buffer whose entries are to be acknowledged. -/
def unacked (m : MissHandler c) : List (MissResp c) :=
  (if m.acked then m.respFifo.tail else m.respFifo).filter fun r => !r.isInval

/-- The refill FSM works on the response at the head of the buffer. -/
structure Busy (m : MissHandler c) : Prop where
  some : m.refillFsmQ ≠ .idle → m.metaRok = true
  inval : m.refillFsmQ = .inval → m.head.isInval = true

theorem busy_reset (m : MissHandler c) : m.reset.Busy :=
  ⟨fun h => absurd rfl h, nofun⟩

/-- What the refill FSM does with the response at the head of the buffer: it lets it wait, it
acknowledges its entry, it works on it, or it consumes it. -/
inductive Effect (m : MissHandler c) (i : MissIn c) : Prop
  | wait (hf : m.refillFsmQ = .idle) (hd : (m.refillComb i).fsmD = .idle)
      (hr : (m.refillComb i).metaR = false) (ha : (m.refillComb i).ack = false)
  | check (hf : m.refillFsmQ = .idle) (hd : (m.refillComb i).fsmD = .inval)
      (hr : (m.refillComb i).metaR = false) (ha : (m.refillComb i).ack = false)
      (hrok : m.metaRok = true) (hi : m.head.isInval = true)
  | ack (hf : m.refillFsmQ = .idle) (hd : (m.refillComb i).fsmD = .write)
      (hr : (m.refillComb i).metaR = false) (ha : (m.refillComb i).ack = true)
      (hrok : m.metaRok = true) (hi : m.head.isInval = false)
  | work (hf : m.acked = true)
      (hd : (m.refillComb i).fsmD = .write ∨ (m.refillComb i).fsmD = .writeDir)
      (hr : (m.refillComb i).metaR = false) (ha : (m.refillComb i).ack = false)
  | done (hf : m.refillFsmQ ≠ .idle) (hd : (m.refillComb i).fsmD = .idle)
      (hr : (m.refillComb i).metaR = true) (ha : (m.refillComb i).ack = false)

theorem effect (m : MissHandler c) (i : MissIn c) : m.Effect i := by
  cases hf : m.refillFsmQ with
  | idle =>
    have hcomb : m.refillComb i = m.refillIdle i := by simp [refillComb, hf]
    cases hr : m.metaRok with
    | false =>
      apply Effect.wait hf <;> simp [hcomb, refillIdle, hr, refillDefault, hf]
    | true =>
      cases hg : i.refillReqReady with
      | false => apply Effect.wait hf <;> simp [hcomb, refillIdle, hr, hg, refillDefault, hf]
      | true =>
        cases hi : m.head.isInval with
        | false =>
          apply Effect.ack hf _ _ _ hr hi <;>
            simp [hcomb, refillIdle, hr, hg, hi, refillDefault]
        | true =>
          apply Effect.check hf _ _ _ hr hi <;>
            simp [hcomb, refillIdle, hr, hg, hi, refillDefault]
  | write =>
    have hcomb : m.refillComb i = m.refillWrite i := by simp [refillComb, hf]
    have hacked : m.acked = true := by simp [acked, hf]
    have hchunk : m.refillChunk.fsmD = .write ∧ m.refillChunk.metaR = false ∧
        m.refillChunk.ack = false := by
      unfold refillChunk refillFirst refillNext refillDefault
      split_ifs <;> simp [hf]
    by_cases hlast : m.refillCntQ = refillLastChunkWord c
    · by_cases hone : refillLastChunkWord c = 0
      · apply Effect.work hacked <;> simp [hcomb, refillWrite, hlast, hone, hchunk]
      · apply Effect.done (by simp [hf]) <;>
          simp [hcomb, refillWrite, hlast, hone, refillLast, hchunk]
    · apply Effect.work hacked <;> simp [hcomb, refillWrite, hlast, hchunk]
  | writeDir =>
    apply Effect.done (by simp [hf]) <;> simp [refillComb, hf, refillLast, refillDefault]
  | inval =>
    apply Effect.done (by simp [hf]) <;> simp [refillComb, hf, refillDefault]

theorem respFifo_step : (m.step i).respFifo =
    (if (m.refillComb i).metaR then m.respFifo.tail else m.respFifo) ++
      (if m.memRespReady then i.memResp else none).toList := by
  have hwok : Fifo.wok c.refillFifoDepth false m.respFifo (m.refillComb i).metaR = m.memRespReady := by
    simp [memRespReady, Fifo.wok]
  show Fifo.step c.refillFifoDepth false m.respFifo i.memResp (m.refillComb i).metaR = _
  rw [Fifo.step_eq, Fifo.accepted, hwok]

theorem respFifo_eq (h : m.metaRok = true) : m.respFifo = m.head :: m.respFifo.tail := by
  unfold metaRok at h
  unfold head
  cases hq : m.respFifo with
  | nil => simp [hq] at h
  | cons r q => rfl

theorem Busy.step (h : m.Busy) : (m.step i).Busy := by
  have hfifo := respFifo_step (m := m) (i := i)
  have hfsm : (m.step i).refillFsmQ = (m.refillComb i).fsmD := rfl
  have hkeep : m.metaRok = true → (m.refillComb i).metaR = false →
      (m.step i).metaRok = true ∧ (m.step i).head = m.head :=
    fun hrok hr => ⟨by
      unfold metaRok
      rw [hfifo, hr, if_neg Bool.false_ne_true, respFifo_eq hrok]
      rfl, head_step hrok hr⟩
  cases m.effect i with
  | wait hf hd hr ha => exact ⟨fun hne => absurd (hfsm.trans hd) hne, fun hi => by simp [hfsm, hd] at hi⟩
  | check hf hd hr ha hrok hi =>
    obtain ⟨hrok', hhead⟩ := hkeep hrok hr
    exact ⟨fun _ => hrok', fun _ => by rw [hhead, hi]⟩
  | ack hf hd hr ha hrok hi =>
    exact ⟨fun _ => (hkeep hrok hr).1, fun hi => by simp [hfsm, hd] at hi⟩
  | work hf hd hr ha =>
    have hrok : m.metaRok = true := by
      apply h.some
      intro hidle
      simp [acked, hidle] at hf
    refine ⟨fun _ => (hkeep hrok hr).1, fun hi => ?_⟩
    rcases hd with hd | hd <;> simp [hfsm, hd] at hi
  | done hf hd hr ha => exact ⟨fun hne => absurd (hfsm.trans hd) hne, fun hi => by simp [hfsm, hd] at hi⟩

/-- The responses that wait for their acknowledge: the first of them leaves when it gets it, and
the one that the memory gives enters. -/
theorem unacked_step (h : m.Busy) : (m.step i).unacked =
    (if (m.refillComb i).ack then m.unacked.tail else m.unacked) ++
      ((if m.memRespReady then i.memResp else none).toList.filter fun r => !r.isInval) := by
  have hfifo := respFifo_step (m := m) (i := i)
  have hfsm : (m.step i).refillFsmQ = (m.refillComb i).fsmD := rfl
  unfold unacked
  rw [hfifo]
  cases m.effect i with
  | wait hf hd hr ha => simp [acked, hfsm, hd, hf, hr, ha]
  | check hf hd hr ha hrok hi => simp [acked, hfsm, hd, hf, hr, ha]
  | ack hf hd hr ha hrok hi =>
    rw [respFifo_eq hrok]
    simp [acked, hfsm, hd, hf, hr, ha, hi]
  | work hf hd hr ha =>
    have hrok : m.metaRok = true := by
      apply h.some
      intro hidle
      simp [acked, hidle] at hf
    have hacked : (m.step i).acked = true := by
      rcases hd with hd | hd <;> simp [acked, hfsm, hd]
    rw [respFifo_eq hrok]
    simp [hacked, hf, hr, ha]
  | done hf hd hr ha =>
    have hacked : (m.step i).acked = false := by simp [acked, hfsm, hd]
    have hrok := h.some hf
    rw [hacked, hr, ha, respFifo_eq hrok]
    cases hk : m.acked with
    | true => simp
    | false =>
      -- the FSM is done with an invalidation
      have hinv : m.refillFsmQ = .inval := by
        cases hq : m.refillFsmQ <;> simp_all [acked]
      simp [h.inval hinv]

theorem unacked_of_ack (h : (m.refillComb i).ack = true) :
    m.unacked = m.head :: m.unacked.tail := by
  obtain ⟨hf, hrok, -, hi⟩ := ack_cases h
  unfold unacked
  rw [respFifo_eq hrok]
  simp [acked, hf, hi]

end MissHandler

/-! ## The uncacheable handler -/

namespace Uncached

variable {u : Uncached c} {i : UcIn c}

/-- The handler has sent a request that the read channel answers, and has no answer. -/
def AwaitsRead (u : Uncached c) : Prop :=
  (u.fsmQ = .memWdataReq ∨ u.fsmQ = .memWaitRsp) ∧
    (isRead u.reqQ.op = true ∨ u.reqQ.op.isAmoRmw = true ∧ u.memRespReadValidQ = false)

/-- The handler has sent a request that the write channel answers, and has no answer. -/
def AwaitsWrite (u : Uncached c) : Prop :=
  (u.fsmQ = .memWdataReq ∨ u.fsmQ = .memWaitRsp) ∧ isWrite u.reqQ.op = true ∧
    (u.reqQ.op.isAmoRmw = true → u.memRespWriteValidQ = false)

/-- A handler that has given half of a write to the memory has a write, and no answer to it. -/
structure Halfway (u : Uncached c) : Prop where
  write : u.fsmQ = .memWReq ∨ u.fsmQ = .memWdataReq → isWrite u.reqQ.op = true
  noAnswer : u.fsmQ = .memWReq → u.memRespReadValidQ = false ∧ u.memRespWriteValidQ = false

/-- The handler hands a read request over. -/
def readSent (u : Uncached c) (i : UcIn c) : Bool := u.memReadValid && i.memReadReady

/-- The handler hands a write request over. -/
def writeSent (u : Uncached c) (i : UcIn c) : Bool := u.memWriteValid && i.memWriteReady

theorem halfway_reset (u : Uncached c) : u.reset.Halfway := by
  constructor <;> simp [reset]

theorem waitRspD_ne (hf : u.waitRspD i ≠ .memWaitRsp) :
    u.waitRspD i ≠ .memWReq ∧ u.waitRspD i ≠ .memWdataReq := by
  unfold waitRspD at hf ⊢
  dsimp only at hf ⊢
  split_ifs at hf ⊢ <;> simp_all

/-- The steps that lead to a write of which half is given: from the request, or from itself. -/
theorem halfway_cases (hf : u.fsmD i = .memWReq ∨ u.fsmD i = .memWdataReq) :
    (u.fsmQ = .memReq ∧ isWrite u.reqQ.op = true) ∨ (u.fsmQ = .memWReq ∧ u.fsmD i = .memWReq) ∨
      (u.fsmQ = .memWdataReq ∧ u.fsmD i = .memWdataReq) := by
  unfold fsmD at hf ⊢
  cases hq : u.fsmQ with
  | idle =>
    simp only [hq, idleD] at hf
    split_ifs at hf <;> simp at hf
  | memReq =>
    simp only [hq, memReqD] at hf
    cases hw : isWrite u.reqQ.op with
    | true => exact .inl ⟨rfl, rfl⟩
    | false =>
      simp only [hw, Bool.false_eq_true, if_false] at hf
      split_ifs at hf <;> simp at hf
  | memWReq =>
    simp only [hq] at hf ⊢
    split_ifs at hf ⊢ <;> simp_all
  | memWdataReq =>
    simp only [hq] at hf ⊢
    split_ifs at hf ⊢ <;> simp_all
  | memWaitRsp =>
    simp only [hq] at hf
    by_cases hne : u.waitRspD i = .memWaitRsp
    · simp [hne] at hf
    · obtain ⟨h1, h2⟩ := waitRspD_ne hne
      exact absurd hf (not_or.2 ⟨h1, h2⟩)
  | coreRsp =>
    simp only [hq] at hf
    split_ifs at hf <;> simp at hf
  | amoWriteData => simp [hq] at hf

theorem Halfway.step (h : u.Halfway) : (u.step i).Halfway := by
  have hfsm : (u.step i).fsmQ = u.fsmD i := rfl
  constructor
  · intro hf
    rw [hfsm] at hf
    rcases halfway_cases hf with ⟨hq, hw⟩ | ⟨hq, -⟩ | ⟨hq, -⟩
    · rw [reqQ_step (by simp [hq])]
      exact hw
    · rw [reqQ_step (by simp [hq])]
      exact h.write (.inl hq)
    · rw [reqQ_step (by simp [hq])]
      exact h.write (.inr hq)
  · intro hf
    rw [hfsm] at hf
    rcases halfway_cases (.inl hf) with ⟨hq, -⟩ | ⟨hq, -⟩ | ⟨-, hd⟩
    · simp [Uncached.step, hq]
    · simpa [Uncached.step, hq] using h.noAnswer hq
    · rw [hf] at hd
      contradiction

theorem memWdataReq_step (hq : u.fsmQ = .memWdataReq) :
    (u.step i).fsmQ = .memWdataReq ∨ (u.step i).fsmQ = .memWaitRsp := by
  show u.fsmD i = _ ∨ u.fsmD i = _
  simp only [fsmD, hq]
  split_ifs <;> simp

/-- A request that the read channel answers waits for its answer. -/
theorem AwaitsRead.step (h : u.AwaitsRead) (hi : i.memRead = none) : (u.step i).AwaitsRead := by
  obtain ⟨hq, hop⟩ := h
  rcases hq with hq | hq
  · refine ⟨memWdataReq_step hq, ?_⟩
    rw [reqQ_step (by simp [hq])]
    simpa [Uncached.step, hq, hi] using hop
  · refine ⟨.inr ?_, ?_⟩
    · show u.fsmD i = .memWaitRsp
      rcases hop with hr | ⟨hrmw, hv⟩
      · cases ho : u.reqQ.op <;> rw [ho] at hr <;>
          simp [fsmD, hq, waitRspD, ho, hi, ReqOp.isLoad, ReqOp.isStore] <;>
          simp [isRead, ReqOp.isLoad] at hr
      · cases ho : u.reqQ.op <;> rw [ho] at hrmw <;>
          simp [fsmD, hq, waitRspD, ho, hi, ReqOp.isLoad, ReqOp.isStore, rmwDone, hv] <;>
          simp_all [ReqOp.isAmoRmw, ReqOp.isAmo]
    · rw [reqQ_step (by simp [hq])]
      simpa [Uncached.step, hq, hi] using hop

/-- A request that the write channel answers waits for its answer. -/
theorem AwaitsWrite.step (h : u.AwaitsWrite) (hi : i.memWrite = none) : (u.step i).AwaitsWrite := by
  obtain ⟨hq, hop, hv⟩ := h
  rcases hq with hq | hq
  · refine ⟨memWdataReq_step hq, ?_⟩
    rw [reqQ_step (by simp [hq])]
    simpa [Uncached.step, hq, hi] using ⟨hop, hv⟩
  · refine ⟨.inr ?_, ?_⟩
    · show u.fsmD i = .memWaitRsp
      cases ho : u.reqQ.op <;> rw [ho] at hop hv <;>
        simp [fsmD, hq, waitRspD, ho, hi, ReqOp.isLoad, ReqOp.isStore, rmwDone] <;>
        simp_all [ReqOp.isAmoRmw, ReqOp.isAmo, isWrite, ReqOp.isStore]
    · rw [reqQ_step (by simp [hq])]
      simpa [Uncached.step, hq, hi] using ⟨hop, hv⟩

/-- A write request that is handed over waits for its answers. -/
theorem Halfway.writeSent (h : u.Halfway) (hs : u.writeSent i = true) :
    (u.fsmQ = .memReq ∨ u.fsmQ = .memWReq) ∧ isWrite u.reqQ.op = true ∧
      ((u.step i).fsmQ = .memWdataReq ∨ (u.step i).fsmQ = .memWaitRsp) ∧
      (u.step i).memRespReadValidQ = false ∧ (u.step i).memRespWriteValidQ = false := by
  have hfsm : (u.step i).fsmQ = u.fsmD i := rfl
  simp only [Uncached.writeSent, memWriteValid, Bool.and_eq_true, Bool.or_eq_true,
    decide_eq_true_eq] at hs
  obtain ⟨⟨hq, hw⟩ | hq, hready⟩ := hs
  · refine ⟨.inl hq, hw, ?_, by simp [Uncached.step, hq], by simp [Uncached.step, hq]⟩
    rw [hfsm]
    simp only [fsmD, hq, memReqD, not_read_of_isWrite hw, hw, hready, Bool.true_and,
      Bool.false_eq_true, if_false, if_true]
    split_ifs <;> simp
  · obtain ⟨hr, hv⟩ := h.noAnswer hq
    refine ⟨.inr hq, h.write (.inl hq), .inr ?_, by simp [Uncached.step, hq, hr],
      by simp [Uncached.step, hq, hv]⟩
    rw [hfsm]
    simp [fsmD, hq, hready]

theorem readSent_cases (hs : u.readSent i = true) :
    u.fsmQ = .memReq ∧ isRead u.reqQ.op = true ∧ (u.step i).fsmQ = .memWaitRsp := by
  simp only [readSent, memReadValid, Bool.and_eq_true, decide_eq_true_eq] at hs
  obtain ⟨⟨hq, hr⟩, hready⟩ := hs
  refine ⟨hq, hr, ?_⟩
  show u.fsmD i = .memWaitRsp
  simp [fsmD, hq, memReqD, hr, hready]

theorem not_awaitsRead (hq : u.fsmQ = .memReq ∨ u.fsmQ = .memWReq) : ¬ u.AwaitsRead := by
  rintro ⟨h | h, -⟩ <;> simp [h] at hq

theorem not_awaitsWrite (hq : u.fsmQ = .memReq ∨ u.fsmQ = .memWReq) : ¬ u.AwaitsWrite := by
  rintro ⟨h | h, -⟩ <;> simp [h] at hq

/-- The read half of an operation starts with its request. -/
theorem Halfway.awaitsRead (h : u.Halfway)
    (hs : u.readSent i = true ∨ u.writeSent i = true ∧ u.reqQ.op.isAmoRmw = true) :
    ¬ u.AwaitsRead ∧ (u.step i).AwaitsRead := by
  rcases hs with hs | ⟨hs, hrmw⟩
  · obtain ⟨hq, hr, hq'⟩ := readSent_cases hs
    refine ⟨not_awaitsRead (.inl hq), .inr hq', .inl ?_⟩
    rw [reqQ_step (by simp [hq])]
    exact hr
  · obtain ⟨hq, -, hq', hv, -⟩ := h.writeSent hs
    refine ⟨not_awaitsRead hq, hq', .inr ⟨?_, hv⟩⟩
    rw [reqQ_step (by rcases hq with hq | hq <;> simp [hq])]
    exact hrmw

theorem Halfway.awaitsWrite (h : u.Halfway) (hs : u.writeSent i = true) :
    ¬ u.AwaitsWrite ∧ (u.step i).AwaitsWrite := by
  obtain ⟨hq, hw, hq', -, hv⟩ := h.writeSent hs
  refine ⟨not_awaitsWrite hq, hq', ?_, fun _ => hv⟩
  rw [reqQ_step (by rcases hq with hq | hq <;> simp [hq])]
  exact hw

end Uncached

/-! ## The flush controller -/

namespace Flush

variable {f : Flush c} {i : FlushIn c}

/-- A line that is taken is queued. -/
theorem metaFifo_step : (f.step i).metaFifo =
    (if i.memReqReady then f.metaFifo.tail else f.metaFifo) ++
      if f.doAlloc i then [⟨i.allocNline, f.freePtr⟩] else [] := by
  have hwok : Fifo.wok 2 false f.metaFifo i.memReqReady = f.metaWok := by
    simp [metaWok, Fifo.wok]
  show Fifo.step 2 false f.metaFifo _ i.memReqReady = _
  rw [Fifo.step_eq, Fifo.accepted, hwok]
  congr 1
  unfold doAlloc allocReady
  cases f.metaWok <;> cases decide (f.fsmQ = .idle) <;> cases f.resizerWok <;> cases f.full <;>
    cases i.alloc <;> rfl

/-- The entry of a line that is taken was free. -/
theorem freePtr_free (h : f.freeArb.Held fun e => !f.validQ e) (ha : f.doAlloc i = true) :
    f.validQ f.freePtr = false ∧ f.freeBv f.freePtr = true := by
  simp only [doAlloc, allocReady, Bool.and_eq_true, Bool.not_eq_true'] at ha
  obtain ⟨j, hj⟩ := all_eq_false.1 ha.2.2
  have hany : any f.freeBv = true := by
    rw [freeBv, h.any_gnt, any_eq_true]
    exact ⟨j, by simp [hj]⟩
  obtain ⟨e, he⟩ := any_eq_true.1 hany
  have hptr : f.freePtr = e := h.oneHot_gnt.toBinary _ he
  rw [hptr]
  exact ⟨by simpa using h.gnt_mem he, he⟩

end Flush

/-! ## The cache and its transactions -/

/-- A response on the read channel, or an invalidation. -/
structure ReadResp (k : IdCfg) where
  id : k.MemId
  error : Bool
  data : Nat → Byte
  inval : Option (Nline k.cfg)

structure WriteResp (k : IdCfg) where
  id : k.MemId
  error : Bool
  isAtomic : Bool

/-- Inputs of a cycle, with the responses as they are on the channels. -/
structure TrafficIn (k : IdCfg) where
  core : CacheIn k.cfg
  readResp : Option (ReadResp k)
  writeResp : Option (WriteResp k)

namespace ReadResp

variable {k : IdCfg}

/-- The response is for the uncacheable handler. -/
def isUc (r : ReadResp k) : Bool := decide (r.id = k.ucId) && r.inval.isNone

/-- What the miss handler gets, with the slot that it takes out of the identifier. -/
def toMiss (r : ReadResp k) : Option (MissResp k.cfg) :=
  if r.isUc then none
  else some {
    rError := r.error
    rSet := ⟨k.ackSet r.id % k.cfg.mshrSets, Nat.mod_lt _ k.cfg.mshrSets_pos⟩
    rWay := ⟨k.ackWay r.id % k.cfg.mshrWays, Nat.mod_lt _ k.cfg.mshrWays_pos⟩
    isInval := r.inval.isSome
    invalNline := r.inval.getD ⟨0, ⟨0, k.cfg.sets_pos⟩⟩
    data := r.data }

def toUc (r : ReadResp k) : Option UcReadResp :=
  if r.isUc then some ⟨r.error, r.data⟩ else none

end ReadResp

namespace WriteResp

variable {k : IdCfg}

def toWbuf (r : WriteResp k) : Option (Fin k.cfg.wbufDirEntries) :=
  match k.writeDest r.id with
  | .wbuf e => some ⟨e % k.cfg.wbufDirEntries, Nat.mod_lt _ k.cfg.wbufDirEntries_pos⟩
  | _ => none

def toFlush (r : WriteResp k) : Option (Fin k.cfg.flushEntries) :=
  match k.writeDest r.id with
  | .flush e => some ⟨e % k.cfg.flushEntries, Nat.mod_lt _ k.cfg.flushEntries_pos⟩
  | _ => none

def toUc (r : WriteResp k) : Option UcWriteResp :=
  match k.writeDest r.id with
  | .uc => some ⟨r.error, r.isAtomic⟩
  | _ => none

end WriteResp

/-- The responses as the units get them. -/
def TrafficIn.cacheIn {k : IdCfg} (i : TrafficIn k) : CacheIn k.cfg :=
  { i.core with
    missResp := i.readResp.bind ReadResp.toMiss
    ucRead := i.readResp.bind ReadResp.toUc
    wbufAck := i.writeResp.bind WriteResp.toWbuf
    flushAck := i.writeResp.bind WriteResp.toFlush
    ucWrite := i.writeResp.bind WriteResp.toUc }

/-- The cache and its transactions in flight. -/
structure Traffic (k : IdCfg) where
  cache : Cache k.cfg
  reads : List (ReadUnit k.cfg)
  writes : List (WriteUnit k.cfg)

namespace Traffic

variable {k : IdCfg}

def reset (s : Cache k.cfg) : Traffic k := ⟨s.reset, [], []⟩

variable (s : Traffic k) (i : TrafficIn k)

/-! ### Transactions that start -/

/-- The miss whose read is handed over. -/
def missSent : List (ReadUnit k.cfg) :=
  match s.cache.miss.memReq with
  | some q => if i.core.missReqReady then [.miss q.set q.way] else []
  | none => []

/-- The uncacheable handler hands over a read, or an atomic operation that reads. -/
def ucReadSent : List (ReadUnit k.cfg) :=
  if s.cache.uc.readSent (s.cache.ucIn i.cacheIn) ||
      s.cache.uc.writeSent (s.cache.ucIn i.cacheIn) && s.cache.uc.reqQ.op.isAmoRmw
  then [.uc] else []

def wbufSent : List (WriteUnit k.cfg) :=
  if h : k.cfg.wtEn = true then
    (if i.core.wbufReqReady then s.cache.wbuf.metaFifo.head? else none).toList.map
      fun q => .wbuf q.id h
  else []

def flushSent : List (WriteUnit k.cfg) :=
  if h : k.cfg.wbEn = true then
    (if i.core.flushReqReady then s.cache.flush.metaFifo.head? else none).toList.map
      fun q => .flush q.id h
  else []

def ucWriteSent : List (WriteUnit k.cfg) :=
  if s.cache.uc.writeSent (s.cache.ucIn i.cacheIn) then [.uc] else []

/-! ### Transactions that end -/

/-- The read that the response ends. The miss handler takes a response when its buffer has room. -/
def readDone : Option (ReadUnit k.cfg) :=
  match i.readResp with
  | none => none
  | some r =>
    if r.inval.isSome || !r.isUc && !s.cache.miss.memRespReady then none
    else s.reads.find? fun u => k.readId u = r.id

def writeDone : Option (WriteUnit k.cfg) :=
  match i.writeResp with
  | none => none
  | some r => s.writes.find? fun u => k.writeId u = r.id

def step : Traffic k where
  cache := s.cache.step i.cacheIn
  reads := (s.readDone i).elim s.reads s.reads.erase ++ s.missSent i ++ s.ucReadSent i
  writes := (s.writeDone i).elim s.writes s.writes.erase ++
    s.wbufSent i ++ s.flushSent i ++ s.ucWriteSent i

/-- A response has the identifier of a transaction in flight. -/
structure Answers : Prop where
  read : ∀ r, i.readResp = some r → r.inval = none → ∃ u ∈ s.reads, k.readId u = r.id
  write : ∀ r, i.writeResp = some r → ∃ u ∈ s.writes, k.writeId u = r.id

/-- A miss that is allocated finds a free way in its set of the MSHR. -/
def Fits : Prop :=
  s.cache.st2.mshrAllocQ = true → s.cache.miss.allocReady = true →
    ∃ w, s.cache.miss.mshr.validQ (Mshr.setOf s.cache.st2.mshrAllocNlineQ) w = false

/-- The identifiers in flight are distinct on each channel, and a response with one of them is
given to the unit and the slot of the transaction. That of the uncacheable handler is given to no
other transaction. -/
structure Routed : Prop where
  reads : (s.reads.map k.readId).Nodup
  writes : (s.writes.map k.writeId).Nodup
  readDest : ∀ u ∈ s.reads, k.readDest (k.readId u) = u.dest
  writeDest : ∀ u ∈ s.writes, k.writeDest (k.writeId u) = u.dest
  readUc : ∀ u ∈ s.reads, u ≠ .uc → k.readId u ≠ k.ucId
  writeUc : ∀ u ∈ s.writes, u ≠ .uc → k.writeId u ≠ k.ucId

/-! ## The read channel -/

variable {s : Traffic k} {i : TrafficIn k}

/-- The slots in use by a miss, from its request to the acknowledge of its entry, and the handler of
the uncacheable requests while it reads. -/
def readOwners (s : Traffic k) : List (ReadUnit k.cfg) :=
  s.cache.miss.sending ++ s.reads ++ s.cache.miss.unacked.map MissHandler.respUnit

/-- The slot that the miss of stage 2 takes. -/
def missNew (s : Traffic k) : List (ReadUnit k.cfg) :=
  if s.cache.miss.allocReady && s.cache.st2.mshrAllocQ then
    [.miss (Mshr.setOf s.cache.st2.mshrAllocNlineQ)
      (s.cache.miss.mshr.allocWay s.cache.st2.mshrAllocNlineQ)]
  else []

/-- The slot whose entry is acknowledged. -/
def missAcked (s : Traffic k) (i : TrafficIn k) : List (ReadUnit k.cfg) :=
  if (s.cache.miss.refillComb (s.cache.missIn i.cacheIn)).ack then
    [MissHandler.respUnit s.cache.miss.head]
  else []

/-- The slot of the response that enters the buffer of the miss handler. -/
def missTaken (s : Traffic k) (i : TrafficIn k) : List (ReadUnit k.cfg) :=
  ((if s.cache.miss.memRespReady then i.cacheIn.missResp else none).toList.filter
    fun r => !r.isInval).map MissHandler.respUnit

theorem sending_step :
    (s.step i).cache.miss.sending ++ s.missSent i = s.missNew ++ s.cache.miss.sending := by
  have hfsm : (s.step i).cache.miss.reqFsmQ =
    s.cache.miss.reqFsmD (s.cache.missIn i.cacheIn) := rfl
  have hway : (s.step i).cache.miss.allocWayQ =
    if s.cache.miss.allocReady && s.cache.st2.mshrAllocQ then
      s.cache.miss.mshr.allocWay s.cache.st2.mshrAllocNlineQ else s.cache.miss.allocWayQ := rfl
  have hnline : (s.step i).cache.miss.allocNlineQ =
    if s.cache.miss.allocReady && s.cache.st2.mshrAllocQ then
      s.cache.st2.mshrAllocNlineQ else s.cache.miss.allocNlineQ := rfl
  unfold MissHandler.sending missSent missNew
  rw [hfsm, hway, hnline]
  unfold MissHandler.reqFsmD MissHandler.memReq MissHandler.allocReady
  cases hq : s.cache.miss.reqFsmQ with
  | idle => cases ha : s.cache.st2.mshrAllocQ <;> simp [Cache.missIn, ha]
  | send => cases hr : i.core.missReqReady <;> simp [Cache.missIn, TrafficIn.cacheIn, hr]

theorem unacked_step (h : s.cache.miss.Busy) :
    ((s.step i).cache.miss.unacked.map MissHandler.respUnit ++ s.missAcked i).Perm
      (s.cache.miss.unacked.map MissHandler.respUnit ++ s.missTaken i) := by
  have hstep : (s.step i).cache.miss = s.cache.miss.step (s.cache.missIn i.cacheIn) := rfl
  rw [hstep, MissHandler.unacked_step h, List.map_append, List.append_assoc]
  refine (List.Perm.append_left _ List.perm_append_comm).trans ?_
  rw [← List.append_assoc]
  refine List.Perm.append ?_ (List.Perm.refl _)
  unfold missAcked
  cases hk : (s.cache.miss.refillComb (s.cache.missIn i.cacheIn)).ack with
  | false => simp
  | true =>
    rw [MissHandler.unacked_of_ack hk]
    simp only [if_true, List.tail_cons, List.map_cons]
    exact List.perm_append_singleton _ _

/-- The transaction that a response ends is the one that has its identifier. -/
theorem find_eq {α β : Type*} [DecidableEq β] {f : α → β} (hf : Function.Injective f) {l : List α}
    {u : α} (hu : u ∈ l) : l.find? (fun v => f v = f u) = some u := by
  have hsome : (l.find? fun v => f v = f u).isSome = true := by
    rw [List.find?_isSome]
    exact ⟨u, hu, decide_eq_true rfl⟩
  obtain ⟨v, hv⟩ := Option.isSome_iff_exists.1 hsome
  have heq : f v = f u := by simpa using List.find?_some hv
  rw [hv, hf heq]

/-- What a read response does: nothing but for an invalidation, it ends the transaction of the
uncacheable handler, or it brings the response of a miss to the miss handler. -/
theorem Answers.read_cases (h : s.Answers i) :
    (s.readDone i = none ∧ i.cacheIn.ucRead = none ∧ s.missTaken i = []) ∨
    (s.readDone i = some .uc ∧ .uc ∈ s.reads ∧ s.missTaken i = []) ∨
    ∃ a b, s.readDone i = some (.miss a b) ∧ .miss a b ∈ s.reads ∧ i.cacheIn.ucRead = none ∧
      s.missTaken i = [.miss a b] := by
  have huc : i.cacheIn.ucRead = i.readResp.bind ReadResp.toUc := rfl
  have hmiss : i.cacheIn.missResp = i.readResp.bind ReadResp.toMiss := rfl
  unfold readDone missTaken
  rw [huc, hmiss]
  cases hr : i.readResp with
  | none =>
    left
    simp
  | some r =>
    cases hinv : r.inval with
    | some n =>
      left
      have hnot : r.isUc = false := by simp [ReadResp.isUc, hinv]
      refine ⟨by simp [hinv], by simp [ReadResp.toUc, hnot], ?_⟩
      cases s.cache.miss.memRespReady <;> simp [ReadResp.toMiss, hnot, hinv]
    | none =>
      obtain ⟨u, hu, hid⟩ := h.read r hr hinv
      have hfind := find_eq k.readId_injective hu
      rw [hid] at hfind
      cases u with
      | uc =>
        right; left
        have hisUc : r.isUc = true := by
          simp [ReadResp.isUc, hinv, ← hid, IdCfg.readId]
        refine ⟨by simp [hinv, hisUc, hfind], hu, ?_⟩
        cases s.cache.miss.memRespReady <;> simp [ReadResp.toMiss, hisUc]
      | miss a b =>
        have hisUc : r.isUc = false := by
          have hne := IdCfg.missId_ne_ucId a b
          simp only [ReadResp.isUc, Bool.and_eq_false_iff, decide_eq_false_iff_not]
          left
          rw [← hid]
          exact hne
        cases hready : s.cache.miss.memRespReady with
        | false =>
          left
          exact ⟨by simp [hinv, hisUc], by simp [ReadResp.toUc, hisUc], by simp⟩
        | true =>
          right; right
          refine ⟨a, b, by simp [hinv, hisUc, hfind], hu, by simp [ReadResp.toUc, hisUc], ?_⟩
          have hset : k.ackSet r.id % k.cfg.mshrSets = a.val := by
            rw [← hid, IdCfg.readId, IdCfg.ackSet_missId, Nat.mod_eq_of_lt a.isLt]
          have hway : k.ackWay r.id % k.cfg.mshrWays = b.val := by
            rw [← hid, IdCfg.readId, IdCfg.ackWay_missId, Nat.mod_eq_of_lt b.isLt]
          simp [ReadResp.toMiss, hisUc, hinv, MissHandler.respUnit, hset, hway]

/-- The transaction of the uncacheable handler that the response ends. -/
def ucReadDone (s : Traffic k) (i : TrafficIn k) : List (ReadUnit k.cfg) :=
  (s.readDone i).toList.filter fun u => u = .uc

theorem reads_step (h : s.Answers i) :
    ((s.readDone i).elim s.reads s.reads.erase ++ s.missTaken i ++ s.ucReadDone i).Perm
      s.reads := by
  unfold ucReadDone
  rcases h.read_cases with ⟨hd, -, ht⟩ | ⟨hd, hu, ht⟩ | ⟨a, b, hd, hu, -, ht⟩
  · simp [hd, ht]
  · rw [hd, ht]
    simpa using (List.perm_append_singleton _ _).trans (List.perm_cons_erase hu).symm
  · rw [hd, ht]
    simpa using (List.perm_append_singleton _ _).trans (List.perm_cons_erase hu).symm

/-- A cycle adds the slots that a miss and the uncacheable handler take, and removes those that are
acknowledged or answered. -/
theorem readOwners_step (hb : s.cache.miss.Busy) (h : s.Answers i) :
    ((s.step i).readOwners ++ (s.missAcked i ++ s.ucReadDone i)).Perm
      (s.missNew ++ s.ucReadSent i ++ s.readOwners) := by
  have hsend := sending_step (s := s) (i := i)
  have hack := unacked_step (i := i) hb
  have hreads := reads_step h
  have hstep : (s.step i).reads =
    (s.readDone i).elim s.reads s.reads.erase ++ s.missSent i ++ s.ucReadSent i := rfl
  unfold readOwners
  rw [hstep]
  rw [List.perm_iff_count] at hack hreads ⊢
  intro u
  have h1 := congrArg (List.count u) hsend
  have h2 := hack u
  have h3 := hreads u
  simp only [List.count_append] at h1 h2 h3 ⊢
  omega

/-! ## The write channel -/

/-- The entries of the write buffer whose requests wait to be handed over. -/
def wbufQueued (s : Traffic k) : List (WriteUnit k.cfg) :=
  if h : k.cfg.wtEn = true then s.cache.wbuf.metaFifo.map fun q => .wbuf q.id h else []

/-- The entries of the flush controller whose requests wait to be handed over. -/
def flushQueued (s : Traffic k) : List (WriteUnit k.cfg) :=
  if h : k.cfg.wbEn = true then s.cache.flush.metaFifo.map fun q => .flush q.id h else []

/-- The entries in use by a write, from when it is queued to its response, and the handler of the
uncacheable requests while it writes. -/
def writeOwners (s : Traffic k) : List (WriteUnit k.cfg) :=
  s.wbufQueued ++ s.flushQueued ++ s.writes

/-- The entry of the write buffer that is queued. -/
def wbufNew (s : Traffic k) : List (WriteUnit k.cfg) :=
  if h : k.cfg.wtEn = true then
    (first? fun e => s.cache.wbuf.sends e).toList.map fun e => .wbuf e h
  else []

/-- The entry of the flush controller that is queued. -/
def flushNew (s : Traffic k) (i : TrafficIn k) : List (WriteUnit k.cfg) :=
  if h : k.cfg.wbEn = true then
    if s.cache.flush.doAlloc (s.cache.flushIn i.cacheIn) then [.flush s.cache.flush.freePtr h]
    else []
  else []

/-- A queue gives the request that is read and keeps the others. -/
theorem queued_step {α β : Type*} {f : α → β} {q l : List α} {r : Bool} :
    (((if r then q.tail else q) ++ l).map f ++
      (if r then q.head? else none).toList.map f).Perm (l.map f ++ q.map f) := by
  have hkept := Fifo.popped_append_tail (q := q) (w := none) (r := r)
  simp only [Fifo.popped, Fifo.rdata_eq] at hkept
  rw [← List.map_append, ← List.map_append]
  apply List.Perm.map
  refine List.perm_append_comm.trans ?_
  rw [← List.append_assoc, hkept]
  exact List.perm_append_comm

theorem wbufQueued_step (hw : s.cache.wbuf.Wf) :
    ((s.step i).wbufQueued ++ s.wbufSent i).Perm (s.wbufNew ++ s.wbufQueued) := by
  unfold wbufQueued wbufSent wbufNew
  by_cases h : k.cfg.wtEn = true
  · have hstep : (s.step i).cache.wbuf = s.cache.wbuf.step (s.cache.wbufIn i.cacheIn) :=
      if_pos h
    have hkept : s.cache.wbuf.keptMeta (s.cache.wbufIn i.cacheIn) =
      if i.core.wbufReqReady then s.cache.wbuf.metaFifo.tail else s.cache.wbuf.metaFifo := rfl
    rw [dif_pos h, dif_pos h, dif_pos h, dif_pos h, hstep]
    rcases hw.fifo_step (i := s.cache.wbufIn i.cacheIn) with ⟨e, he, -, hmeta⟩ | ⟨hno, -, hmeta⟩
    · have hfirst : (first? fun e => s.cache.wbuf.sends e) = some e := by
        apply first?_of_forall
        intro j
        constructor
        · intro hj
          exact hw.sends_unique hj he
        · rintro rfl
          exact he
      rw [hmeta, hkept, hfirst]
      exact queued_step (f := fun q : WbufMeta k.cfg => WriteUnit.wbuf q.id h)
        (l := [⟨(s.cache.wbuf.dirQ e).tag, e, (s.cache.wbuf.dirQ e).uc⟩])
    · have hfirst : (first? fun e => s.cache.wbuf.sends e) = none :=
        first?_eq_none_iff.2 hno
      rw [hmeta, hkept, hfirst]
      have hq := queued_step (f := fun q : WbufMeta k.cfg => WriteUnit.wbuf q.id h)
        (q := s.cache.wbuf.metaFifo) (l := []) (r := i.core.wbufReqReady)
      rwa [List.append_nil] at hq
  · simp [h]

theorem flushQueued_step :
    ((s.step i).flushQueued ++ s.flushSent i).Perm (s.flushNew i ++ s.flushQueued) := by
  unfold flushQueued flushSent flushNew
  by_cases h : k.cfg.wbEn = true
  · have hstep : (s.step i).cache.flush = s.cache.flush.step (s.cache.flushIn i.cacheIn) :=
      if_pos h
    have hq := queued_step (f := fun q : FlushMeta k.cfg => WriteUnit.flush q.id h)
      (q := s.cache.flush.metaFifo)
      (l := if s.cache.flush.doAlloc (s.cache.flushIn i.cacheIn) then
        [⟨(s.cache.flushIn i.cacheIn).allocNline, s.cache.flush.freePtr⟩] else [])
      (r := i.core.flushReqReady)
    rw [dif_pos h, dif_pos h, dif_pos h, dif_pos h, hstep, Flush.metaFifo_step]
    refine hq.trans (List.Perm.append_right _ ?_)
    cases s.cache.flush.doAlloc (s.cache.flushIn i.cacheIn) <;> exact List.Perm.refl _
  · simp [h]

theorem Answers.write_done (h : s.Answers i) :
    (s.writeDone i = none ∧ i.writeResp = none) ∨
      ∃ u r, s.writeDone i = some u ∧ u ∈ s.writes ∧ i.writeResp = some r ∧
        k.writeDest r.id = u.dest := by
  unfold writeDone
  cases hr : i.writeResp with
  | none => exact .inl ⟨rfl, rfl⟩
  | some r =>
    obtain ⟨u, hu, hid⟩ := h.write r hr
    have hfind := find_eq k.writeId_injective hu
    rw [hid] at hfind
    refine .inr ⟨u, r, hfind, hu, rfl, ?_⟩
    rw [← hid, IdCfg.writeDest_writeId]

theorem writes_step (h : s.Answers i) :
    ((s.writeDone i).elim s.writes s.writes.erase ++ (s.writeDone i).toList).Perm s.writes := by
  rcases h.write_done with ⟨hd, -⟩ | ⟨u, r, hd, hu, -⟩
  · simp [hd]
  · rw [hd]
    exact (List.perm_append_singleton _ _).trans (List.perm_cons_erase hu).symm

/-- A cycle adds the entries that are queued and removes the one that is answered. -/
theorem writeOwners_step (hw : s.cache.wbuf.Wf) (h : s.Answers i) :
    ((s.step i).writeOwners ++ (s.writeDone i).toList).Perm
      (s.wbufNew ++ s.flushNew i ++ s.ucWriteSent i ++ s.writeOwners) := by
  have hwbuf := wbufQueued_step (i := i) hw
  have hflush := flushQueued_step (s := s) (i := i)
  have hwrites := writes_step h
  have hstep : (s.step i).writes = (s.writeDone i).elim s.writes s.writes.erase ++
    s.wbufSent i ++ s.flushSent i ++ s.ucWriteSent i := rfl
  unfold writeOwners
  rw [hstep]
  rw [List.perm_iff_count] at hwbuf hflush hwrites ⊢
  intro u
  have h1 := hwbuf u
  have h2 := hflush u
  have h3 := hwrites u
  simp only [List.count_append] at h1 h2 h3 ⊢
  omega

/-! ## The invariant -/

/-- A slot or an entry is used by one transaction at a time, and is valid as long as it is used. -/
structure Inv (s : Traffic k) : Prop where
  busy : s.cache.miss.Busy
  halfway : s.cache.uc.Halfway
  wbuf : s.cache.wbuf.Wf
  flush : s.cache.flush.freeArb.Held fun e => !s.cache.flush.validQ e
  reads : s.readOwners.Nodup
  writes : s.writeOwners.Nodup
  missValid : ∀ a b, .miss a b ∈ s.readOwners → s.cache.miss.mshr.validQ a b = true
  ucReads : .uc ∈ s.reads → s.cache.uc.AwaitsRead
  wbufValid : ∀ e h, .wbuf e h ∈ s.writeOwners → s.cache.wbuf.stateQ e = .sent
  flushValid : ∀ e h, .flush e h ∈ s.writeOwners → s.cache.flush.validQ e = true
  ucWrites : .uc ∈ s.writes → s.cache.uc.AwaitsWrite

theorem inv_reset (s : Cache k.cfg) : (reset s).Inv where
  busy := MissHandler.busy_reset _
  halfway := Uncached.halfway_reset _
  wbuf := Wbuf.wf_reset _
  flush := FxArb.held_reset
  reads := List.nodup_nil
  writes := by simp [writeOwners, wbufQueued, flushQueued, reset, Cache.reset, Wbuf.reset,
    Flush.reset]
  missValid := nofun
  ucReads := nofun
  wbufValid := by simp [writeOwners, wbufQueued, flushQueued, reset, Cache.reset, Wbuf.reset,
    Flush.reset]
  flushValid := by simp [writeOwners, wbufQueued, flushQueued, reset, Cache.reset, Wbuf.reset,
    Flush.reset]
  ucWrites := nofun

theorem uc_mem_readOwners : .uc ∈ s.readOwners ↔ .uc ∈ s.reads := by
  unfold readOwners MissHandler.sending
  cases s.cache.miss.reqFsmQ <;> simp [MissHandler.respUnit]

theorem uc_mem_writeOwners : .uc ∈ s.writeOwners ↔ .uc ∈ s.writes := by
  unfold writeOwners wbufQueued flushQueued
  split_ifs <;> simp

theorem mem_missNew {u : ReadUnit k.cfg} (h : u ∈ s.missNew) :
    u = .miss (Mshr.setOf s.cache.st2.mshrAllocNlineQ)
      (s.cache.miss.mshr.allocWay s.cache.st2.mshrAllocNlineQ) ∧
    s.cache.miss.allocReady = true ∧ s.cache.st2.mshrAllocQ = true := by
  unfold missNew at h
  by_cases ha : (s.cache.miss.allocReady && s.cache.st2.mshrAllocQ) = true
  · rw [if_pos ha, List.mem_singleton] at h
    rw [Bool.and_eq_true] at ha
    exact ⟨h, ha⟩
  · rw [if_neg ha] at h
    exact absurd h List.not_mem_nil

theorem mem_ucReadSent {u : ReadUnit k.cfg} (h : u ∈ s.ucReadSent i) : u = .uc ∧
    (s.cache.uc.readSent (s.cache.ucIn i.cacheIn) = true ∨
      s.cache.uc.writeSent (s.cache.ucIn i.cacheIn) = true ∧
        s.cache.uc.reqQ.op.isAmoRmw = true) := by
  unfold ucReadSent at h
  rw [← Bool.and_eq_true, ← Bool.or_eq_true]
  split_ifs at h with hs
  · exact ⟨List.mem_singleton.1 h, hs⟩
  · exact absurd h List.not_mem_nil

/-- The slot that a miss takes is free. -/
theorem Inv.missNew_disjoint (h : s.Inv) (hf : s.Fits) {u : ReadUnit k.cfg} (hu : u ∈ s.missNew) :
    u ∉ s.readOwners := by
  obtain ⟨rfl, hready, ha⟩ := mem_missNew hu
  intro hmem
  have hv := h.missValid _ _ hmem
  rw [Mshr.allocWay_free (hf ha hready)] at hv
  exact Bool.false_ne_true hv

theorem Inv.ucReadSent_disjoint (h : s.Inv) {u : ReadUnit k.cfg} (hu : u ∈ s.ucReadSent i) :
    u ∉ s.readOwners := by
  obtain ⟨rfl, hs⟩ := mem_ucReadSent hu
  rw [uc_mem_readOwners]
  intro hmem
  exact (h.halfway.awaitsRead hs).1 (h.ucReads hmem)

theorem Inv.reads_after (h : s.Inv) (hans : s.Answers i) (hf : s.Fits) :
    ((s.step i).readOwners ++ (s.missAcked i ++ s.ucReadDone i)).Nodup := by
  rw [(readOwners_step h.busy hans).nodup_iff, List.nodup_append, List.nodup_append]
  refine ⟨⟨?_, ?_, ?_⟩, h.reads, ?_⟩
  · unfold missNew
    split_ifs <;> simp
  · unfold ucReadSent
    split_ifs <;> simp
  · intro u hu v hv
    rw [(mem_missNew hu).1, (mem_ucReadSent hv).1]
    exact nofun
  · intro u hu v hv huv
    rw [← huv] at hv
    rcases List.mem_append.1 hu with hu | hu
    · exact h.missNew_disjoint hf hu hv
    · exact h.ucReadSent_disjoint hu hv

/-- What is in use after a cycle was in use or is new, and is not what the cycle has freed. -/
theorem Inv.mem_readOwners_step (h : s.Inv) (hans : s.Answers i) (hf : s.Fits)
    {u : ReadUnit k.cfg} (hu : u ∈ (s.step i).readOwners) :
    (u ∈ s.missNew ∨ u ∈ s.ucReadSent i ∨ u ∈ s.readOwners) ∧ u ∉ s.missAcked i ∧
      u ∉ s.ucReadDone i := by
  have hmem := (readOwners_step h.busy hans).mem_iff.1 (List.mem_append_left _ hu)
  have hnodup := (List.nodup_append.1 (h.reads_after hans hf)).2.2
  refine ⟨?_, ?_, ?_⟩
  · simpa [or_assoc] using hmem
  · intro hk
    exact hnodup u hu u (List.mem_append_left _ hk) rfl
  · intro hk
    exact hnodup u hu u (List.mem_append_right _ hk) rfl

theorem Inv.missValid_step (h : s.Inv) (hans : s.Answers i) (hf : s.Fits)
    (a : Fin k.cfg.mshrSets) (b : Fin k.cfg.mshrWays) (hu : .miss a b ∈ (s.step i).readOwners) :
    (s.step i).cache.miss.mshr.validQ a b = true := by
  obtain ⟨hmem, hack, -⟩ := h.mem_readOwners_step hans hf hu
  have hrst : ((s.cache.miss.refillComb (s.cache.missIn i.cacheIn)).ack &&
      decide (a = s.cache.miss.head.rSet ∧ b = s.cache.miss.head.rWay)) = false := by
    by_contra hne
    rw [Bool.not_eq_false, Bool.and_eq_true, decide_eq_true_eq] at hne
    obtain ⟨hk, rfl, rfl⟩ := hne
    apply hack
    rw [missAcked, if_pos hk]
    exact List.mem_singleton_self _
  have hstep : (s.step i).cache.miss.mshr.validQ a b = setRst (s.cache.miss.mshr.validQ a b)
    ((s.cache.miss.allocReady && s.cache.st2.mshrAllocQ) &&
      decide (a = Mshr.setOf s.cache.st2.mshrAllocNlineQ ∧
        b = s.cache.miss.mshr.allocWay s.cache.st2.mshrAllocNlineQ))
    ((s.cache.miss.refillComb (s.cache.missIn i.cacheIn)).ack &&
      decide (a = s.cache.miss.head.rSet ∧ b = s.cache.miss.head.rWay)) := rfl
  rw [hstep, hrst]
  rcases hmem with hnew | hsent | hold
  · obtain ⟨heq, hready, ha⟩ := mem_missNew hnew
    obtain ⟨rfl, rfl⟩ := ReadUnit.miss.inj heq
    simp [setRst, hready, ha]
  · have hne := (mem_ucReadSent hsent).1
    contradiction
  · rw [h.missValid a b hold]
    simp [setRst]

theorem Inv.ucReads_step (h : s.Inv) (hans : s.Answers i) (hf : s.Fits)
    (hu : .uc ∈ (s.step i).reads) : (s.step i).cache.uc.AwaitsRead := by
  obtain ⟨hmem, -, hdone⟩ := h.mem_readOwners_step hans hf (uc_mem_readOwners.2 hu)
  rcases hmem with hnew | hsent | hold
  · have hne := (mem_missNew hnew).1
    contradiction
  · exact (h.halfway.awaitsRead (mem_ucReadSent hsent).2).2
  · apply (h.ucReads (uc_mem_readOwners.1 hold)).step
    show i.cacheIn.ucRead = none
    rcases hans.read_cases with ⟨-, hr, -⟩ | ⟨hd, -, -⟩ | ⟨a, b, -, -, hr, -⟩
    · exact hr
    · exact absurd (by simp [ucReadDone, hd]) hdone
    · exact hr

/-! ### Writes -/

theorem mem_wbufNew {u : WriteUnit k.cfg} (h : u ∈ s.wbufNew) :
    ∃ e he, u = .wbuf e he ∧ s.cache.wbuf.sends e = true := by
  unfold wbufNew at h
  by_cases hwt : k.cfg.wtEn = true
  · rw [dif_pos hwt, List.mem_map] at h
    obtain ⟨e, he, rfl⟩ := h
    exact ⟨e, hwt, rfl, first?_mem (Option.mem_toList.1 he)⟩
  · rw [dif_neg hwt] at h
    exact absurd h List.not_mem_nil

theorem mem_flushNew {u : WriteUnit k.cfg} (h : u ∈ s.flushNew i) :
    ∃ he, u = .flush s.cache.flush.freePtr he ∧
      s.cache.flush.doAlloc (s.cache.flushIn i.cacheIn) = true := by
  unfold flushNew at h
  by_cases hwb : k.cfg.wbEn = true
  · rw [dif_pos hwb] at h
    split_ifs at h with ha
    · exact ⟨hwb, List.mem_singleton.1 h, ha⟩
    · exact absurd h List.not_mem_nil
  · rw [dif_neg hwb] at h
    exact absurd h List.not_mem_nil

theorem mem_ucWriteSent {u : WriteUnit k.cfg} (h : u ∈ s.ucWriteSent i) :
    u = .uc ∧ s.cache.uc.writeSent (s.cache.ucIn i.cacheIn) = true := by
  unfold ucWriteSent at h
  split_ifs at h with hs
  · exact ⟨List.mem_singleton.1 h, hs⟩
  · exact absurd h List.not_mem_nil

theorem Inv.writes_after (h : s.Inv) (hans : s.Answers i) :
    ((s.step i).writeOwners ++ (s.writeDone i).toList).Nodup := by
  rw [(writeOwners_step h.wbuf hans).nodup_iff, List.nodup_append, List.nodup_append,
    List.nodup_append]
  refine ⟨⟨⟨?_, ?_, ?_⟩, ?_, ?_⟩, h.writes, ?_⟩
  · unfold wbufNew
    by_cases hwt : k.cfg.wtEn = true
    · rw [dif_pos hwt]
      cases first? fun e => s.cache.wbuf.sends e <;> simp
    · simp [hwt]
  · unfold flushNew
    split_ifs <;> simp
  · intro u hu v hv huv
    obtain ⟨e, he, rfl, -⟩ := mem_wbufNew hu
    obtain ⟨he', rfl, -⟩ := mem_flushNew hv
    contradiction
  · unfold ucWriteSent
    split_ifs <;> simp
  · intro u hu v hv huv
    obtain ⟨rfl, -⟩ := mem_ucWriteSent hv
    rcases List.mem_append.1 hu with hu | hu
    · obtain ⟨e, he, rfl, -⟩ := mem_wbufNew hu
      contradiction
    · obtain ⟨he, rfl, -⟩ := mem_flushNew hu
      contradiction
  · -- what is new was not in use
    intro u hu v hv huv
    rw [← huv] at hv
    rcases List.mem_append.1 hu with hu | hu
    · rcases List.mem_append.1 hu with hu | hu
      · obtain ⟨e, he, rfl, hs⟩ := mem_wbufNew hu
        have hsent := h.wbufValid _ _ hv
        rw [h.wbuf.stateQ_of_sends hs] at hsent
        contradiction
      · obtain ⟨he, rfl, ha⟩ := mem_flushNew hu
        have hvalid := h.flushValid _ _ hv
        rw [(Flush.freePtr_free h.flush ha).1] at hvalid
        contradiction
    · obtain ⟨rfl, hs⟩ := mem_ucWriteSent hu
      exact (h.halfway.awaitsWrite hs).1 (h.ucWrites (uc_mem_writeOwners.1 hv))

theorem Inv.mem_writeOwners_step (h : s.Inv) (hans : s.Answers i) {u : WriteUnit k.cfg}
    (hu : u ∈ (s.step i).writeOwners) :
    (u ∈ s.wbufNew ∨ u ∈ s.flushNew i ∨ u ∈ s.ucWriteSent i ∨ u ∈ s.writeOwners) ∧
      s.writeDone i ≠ some u := by
  have hmem := (writeOwners_step h.wbuf hans).mem_iff.1 (List.mem_append_left _ hu)
  have hnodup := (List.nodup_append.1 (h.writes_after hans)).2.2
  constructor
  · simpa [or_assoc] using hmem
  · intro hd
    exact hnodup u hu u (by simp [hd]) rfl

/-- The acknowledge that a unit gets is for the transaction that the response ends. -/
theorem Answers.wbufAck (h : s.Answers i) {e : Fin k.cfg.wbufDirEntries}
    (hack : i.cacheIn.wbufAck = some e) : ∃ he, s.writeDone i = some (.wbuf e he) := by
  have hin : i.cacheIn.wbufAck = i.writeResp.bind WriteResp.toWbuf := rfl
  rw [hin] at hack
  rcases h.write_done with ⟨-, hr⟩ | ⟨u, r, hd, -, hr, hdest⟩
  · simp [hr] at hack
  · rw [hr, Option.bind_some, WriteResp.toWbuf, hdest] at hack
    cases u with
    | wbuf e' he' =>
      simp only [WriteUnit.dest, Nat.mod_eq_of_lt e'.isLt, Fin.eta, Option.some.injEq] at hack
      rw [← hack]
      exact ⟨he', hd⟩
    | flush e' he' => simp [WriteUnit.dest] at hack
    | uc => simp [WriteUnit.dest] at hack

theorem Answers.flushAck (h : s.Answers i) {e : Fin k.cfg.flushEntries}
    (hack : i.cacheIn.flushAck = some e) : ∃ he, s.writeDone i = some (.flush e he) := by
  have hin : i.cacheIn.flushAck = i.writeResp.bind WriteResp.toFlush := rfl
  rw [hin] at hack
  rcases h.write_done with ⟨-, hr⟩ | ⟨u, r, hd, -, hr, hdest⟩
  · simp [hr] at hack
  · rw [hr, Option.bind_some, WriteResp.toFlush, hdest] at hack
    cases u with
    | wbuf e' he' => simp [WriteUnit.dest] at hack
    | flush e' he' =>
      simp only [WriteUnit.dest, Nat.mod_eq_of_lt e'.isLt, Fin.eta, Option.some.injEq] at hack
      rw [← hack]
      exact ⟨he', hd⟩
    | uc => simp [WriteUnit.dest] at hack

theorem Answers.ucWrite (h : s.Answers i) (hack : i.cacheIn.ucWrite ≠ none) :
    s.writeDone i = some .uc := by
  have hin : i.cacheIn.ucWrite = i.writeResp.bind WriteResp.toUc := rfl
  rw [hin] at hack
  rcases h.write_done with ⟨-, hr⟩ | ⟨u, r, hd, -, hr, hdest⟩
  · simp [hr] at hack
  · rw [hr, Option.bind_some, WriteResp.toUc, hdest] at hack
    cases u with
    | wbuf e' he' => simp [WriteUnit.dest] at hack
    | flush e' he' => simp [WriteUnit.dest] at hack
    | uc => exact hd

theorem Inv.wbufValid_step (h : s.Inv) (hans : s.Answers i) (e : Fin k.cfg.wbufDirEntries)
    (he : k.cfg.wtEn = true) (hu : .wbuf e he ∈ (s.step i).writeOwners) :
    (s.step i).cache.wbuf.stateQ e = .sent := by
  obtain ⟨hmem, hdone⟩ := h.mem_writeOwners_step hans hu
  have hstep : (s.step i).cache.wbuf = s.cache.wbuf.step (s.cache.wbufIn i.cacheIn) := if_pos he
  rw [hstep, h.wbuf.sent_step_iff]
  rcases hmem with hnew | hnew | hnew | hold
  · obtain ⟨e', he', heq, hs⟩ := mem_wbufNew hnew
    obtain rfl := WriteUnit.wbuf.inj heq
    exact .inr hs
  · obtain ⟨he', heq, -⟩ := mem_flushNew hnew
    contradiction
  · have hne := (mem_ucWriteSent hnew).1
    contradiction
  · refine .inl ⟨h.wbufValid e he hold, ?_⟩
    intro hack
    obtain ⟨he', hd⟩ := hans.wbufAck (e := e) hack
    exact hdone hd

theorem Inv.flushValid_step (h : s.Inv) (hans : s.Answers i) (e : Fin k.cfg.flushEntries)
    (he : k.cfg.wbEn = true) (hu : .flush e he ∈ (s.step i).writeOwners) :
    (s.step i).cache.flush.validQ e = true := by
  obtain ⟨hmem, hdone⟩ := h.mem_writeOwners_step hans hu
  have hstep : (s.step i).cache.flush = s.cache.flush.step (s.cache.flushIn i.cacheIn) := if_pos he
  have hrst : Flush.ackBv i.cacheIn.flushAck e = false := by
    by_contra hne
    simp only [Flush.ackBv, Bool.not_eq_false, decide_eq_true_eq] at hne
    obtain ⟨he', hd⟩ := hans.flushAck hne
    exact hdone hd
  rw [hstep]
  show setRst (s.cache.flush.validQ e) _ (Flush.ackBv i.cacheIn.flushAck e) = true
  rw [hrst]
  rcases hmem with hnew | hnew | hnew | hold
  · obtain ⟨e', he', heq, -⟩ := mem_wbufNew hnew
    contradiction
  · obtain ⟨he', heq, ha⟩ := mem_flushNew hnew
    obtain rfl := WriteUnit.flush.inj heq
    simp [setRst, ha, (Flush.freePtr_free h.flush ha).2]
  · have hne := (mem_ucWriteSent hnew).1
    contradiction
  · rw [h.flushValid e he hold]
    simp [setRst]

theorem Inv.ucWrites_step (h : s.Inv) (hans : s.Answers i) (hu : .uc ∈ (s.step i).writes) :
    (s.step i).cache.uc.AwaitsWrite := by
  obtain ⟨hmem, hdone⟩ := h.mem_writeOwners_step hans (uc_mem_writeOwners.2 hu)
  rcases hmem with hnew | hnew | hnew | hold
  · obtain ⟨e', he', heq, -⟩ := mem_wbufNew hnew
    contradiction
  · obtain ⟨he', heq, -⟩ := mem_flushNew hnew
    contradiction
  · exact (h.halfway.awaitsWrite (mem_ucWriteSent hnew).2).2
  · apply (h.ucWrites (uc_mem_writeOwners.1 hold)).step
    show i.cacheIn.ucWrite = none
    by_contra hack
    exact hdone (hans.ucWrite hack)

/-- A cycle in which the memory answers what is in flight and a miss is allocated in a free way
keeps the invariant. -/
theorem Inv.step (h : s.Inv) (hans : s.Answers i) (hf : s.Fits) : (s.step i).Inv where
  busy := h.busy.step
  halfway := h.halfway.step
  wbuf := by
    show (if k.cfg.wtEn then s.cache.wbuf.step _ else s.cache.wbuf).Wf
    split_ifs
    · exact h.wbuf.step _
    · exact h.wbuf
  flush := by
    show (if k.cfg.wbEn then s.cache.flush.step _ else s.cache.flush).freeArb.Held
      fun e => !(if k.cfg.wbEn then s.cache.flush.step _ else s.cache.flush).validQ e
    split_ifs
    · exact Flush.held_step h.flush
    · exact h.flush
  reads := (List.nodup_append.1 (h.reads_after hans hf)).1
  writes := (List.nodup_append.1 (h.writes_after hans)).1
  missValid := h.missValid_step hans hf
  ucReads := h.ucReads_step hans hf
  wbufValid := h.wbufValid_step hans
  flushValid := h.flushValid_step hans
  ucWrites := h.ucWrites_step hans

theorem Inv.routed (h : s.Inv) : s.Routed := by
  have hreads : s.reads.Nodup :=
    (List.nodup_append.1 (List.nodup_append.1 h.reads).1).2.1
  have hwrites : s.writes.Nodup := (List.nodup_append.1 h.writes).2.1
  exact
    { reads := hreads.map k.readId_injective
      writes := hwrites.map k.writeId_injective
      readDest := fun u _ => k.readDest_readId u
      writeDest := fun u _ => k.writeDest_writeId u
      readUc := fun u _ hne hid => hne (k.readId_injective hid)
      writeUc := fun u _ hne hid => hne (k.writeId_injective hid) }

/-! ## The whole run -/

/-- The identifiers in flight are distinct and lead back to where the transactions come from, after
every run in which no miss is allocated in a full set of the MSHR. -/
theorem routed_run (s : Cache k.cfg) (is : List (TrafficIn k))
    (hans : Along step Answers (reset s) is) (hf : Along step (fun s _ => s.Fits) (reset s) is) :
    (run step (reset s) is).Routed :=
  ((hans.and hf).invariant (inv_reset s) fun _ _ hinv h => hinv.step h.1 h.2).routed

/-- In a regular run a miss finds a free way: it is looked up in the MSHR first. -/
theorem fits_regular {is : List (TrafficIn k)} (h : s.cache.Inv)
    (hr : Along Cache.step Cache.Regular s.cache (is.map TrafficIn.cacheIn)) :
    Along step (fun s _ => s.Fits) s is := by
  induction is generalizing s with
  | nil => exact trivial
  | cons i is ih =>
    obtain ⟨hi, his⟩ := hr
    constructor
    · intro ha _
      exact (h.roomy ha).2
    · exact ih (h.step hi) his

instance : Decidable s.Fits := by
  unfold Fits
  infer_instance

/-- The responses of the cycle, if any, have the identifier of a transaction in flight. -/
def knownResps (s : Traffic k) (i : TrafficIn k) : Bool :=
  (i.readResp.all fun r => s.reads.any fun u => k.readId u = r.id) &&
    i.writeResp.all fun r => s.writes.any fun u => k.writeId u = r.id

theorem answers_of_known (h : s.knownResps i = true) : s.Answers i := by
  rw [knownResps, Bool.and_eq_true] at h
  obtain ⟨hread, hwrite⟩ := h
  constructor
  · intro r hr _
    rw [hr] at hread
    simpa using hread
  · intro r hr
    rw [hr] at hwrite
    simpa using hwrite

end Traffic

/-! ## A miss in a full set -/

/-- A cache whose MSHR has two sets of one way. -/
def oneWayCfg : Cfg :=
  { Cfg.small true false true false (Cfg.policy_wt false) (Cfg.latency_noEcc true) with
    mshrWays := 1
    mshrWays_pos := Nat.one_pos }

def twoBits : IdCfg where
  cfg := oneWayCfg
  memIdWidth := 2
  mshrSets_pow := ⟨1, rfl⟩
  mshr_ids := by decide
  wbuf_ids := by decide
  flush_ids := by decide

namespace Traffic

def silent (i : CacheIn oneWayCfg) : TrafficIn twoBits := ⟨i, none, none⟩

/-- A load that misses in the first set. -/
def oneMiss : List (TrafficIn twoBits) :=
  [.idle _, .idle _, .ask (.access .load 1 false), .idle _, .idle _, .idle _].map silent

def otherSet : Req oneWayCfg :=
  { (Req.access .store 2 false : Req oneWayCfg) with addrSet := ⟨1, by decide⟩ }

/-- A virtually indexed load, shown with an uncacheable attribute. -/
def lateLoad : Req oneWayCfg :=
  { (Req.access .load 0 true : Req oneWayCfg) with physIndexed := false }

/-- Then a store looks up the other set of the MSHR, and a load is looked up as if it were
uncacheable, and misses in the first set. -/
def twoMisses : List (TrafficIn twoBits) :=
  oneMiss ++ [.ask otherSet, .idle _, .ask lateLoad, { CacheIn.idle _ with coreReqTag := 3 },
    .idle _, .idle _].map silent

theorem answers_twoMisses :
    Along step Answers (reset (Cache.blank oneWayCfg)) twoMisses :=
  Along.mono (P := fun s i => s.knownResps i = true) (by decide +kernel) fun _ _ => answers_of_known

def set0 : Fin oneWayCfg.mshrSets := ⟨0, oneWayCfg.mshrSets_pos⟩

def set1 : Fin oneWayCfg.mshrSets := ⟨1, by decide⟩

def onlyWay : Fin oneWayCfg.mshrWays := ⟨0, oneWayCfg.mshrWays_pos⟩

def otherLoad : Req oneWayCfg := { otherSet with op := .load }

/-- The memory answers the miss in the first set. -/
def firstAnswer : TrafficIn twoBits where
  core := .idle _
  readResp := some ⟨twoBits.readId (.miss set0 onlyWay), false, fun _ => 0, none⟩
  writeResp := none

/-- A load misses in each set. -/
def twoLoads : List (TrafficIn twoBits) :=
  oneMiss ++ [.ask otherLoad, .idle _, .idle _, .idle _].map silent

/-- Both reads are in flight, and the first one is answered. -/
theorem routed_twoLoads :
    (run step (reset (Cache.blank oneWayCfg)) twoLoads).reads =
        [.miss set0 onlyWay, .miss set1 onlyWay] ∧
      (run step (reset (Cache.blank oneWayCfg)) (twoLoads ++ [firstAnswer])).reads =
        [.miss set1 onlyWay] ∧
      (run step (reset (k := twoBits) (Cache.blank oneWayCfg)) (twoLoads ++ [firstAnswer])).Routed :=
  ⟨by decide +kernel, by decide +kernel, routed_run (k := twoBits) _ _
    (Along.mono (P := fun s i => s.knownResps i = true) (by decide +kernel)
      fun _ _ => answers_of_known) (by decide +kernel)⟩

/-- Both misses are in flight, in the same slot. -/
theorem twoMisses_not_routed :
    Along step Answers (reset (Cache.blank oneWayCfg)) twoMisses ∧
      ¬ (run step (reset (k := twoBits) (Cache.blank oneWayCfg)) twoMisses).Routed := by
  refine ⟨answers_twoMisses, ?_⟩
  intro h
  have hreads : (run step (reset (k := twoBits) (Cache.blank oneWayCfg)) twoMisses).reads =
      [.miss ⟨0, oneWayCfg.mshrSets_pos⟩ ⟨0, oneWayCfg.mshrWays_pos⟩,
        .miss ⟨0, oneWayCfg.mshrSets_pos⟩ ⟨0, oneWayCfg.mshrWays_pos⟩] := by decide +kernel
  have hnodup := h.reads
  rw [hreads] at hnodup
  simp at hnodup

end Traffic

end Hpdcache
