import Hpdcache.Cache
import Hpdcache.Grant

/-!
# The pipeline of the cache

What the protocol engine says of a state of the cache, through the decision on the request in
stage 1, and when a cycle leaves the pipeline in normal operation.

* `Cache.normal_step` — a cycle in which nobody takes the pipeline.
* `Cache.dec` — the decision on the request in stage 1.
* `Cache.pe_agrees` — the outputs of the engine in a cycle of normal operation.
-/

namespace Hpdcache

open Hw

variable {c : Cfg}

/-! ## Who has the pipeline -/

namespace Flush

variable {f : Flush c} {i : FlushIn c}

theorem busy_step (hb : f.busy = false) (ha : i.alloc = false) : (f.step i).busy = false := by
  have hf : f.fsmQ = .idle := by simpa [busy] using hb
  simp [busy, step, hf, doAlloc, ha]

end Flush

namespace MissHandler

variable {m : MissHandler c} {i : MissIn c}

theorem refillBusy_step (hb : m.refillBusy = false) (hr : i.refillReqReady = false) :
    (m.step i).refillBusy = false := by
  have hf : m.refillFsmQ = .idle := by simpa [refillBusy] using hb
  simp only [refillBusy, step, refillComb, hf, refillIdle, refillDefault]
  split_ifs <;> simp_all

end MissHandler

namespace Cache

variable {s : Cache c} {i : CacheIn c}

/-- Neither the initialisation of the directory, nor the refill FSM, nor the flush controller has
the pipeline. -/
def normal (s : Cache c) : Bool := s.mem.initQ && !s.miss.refillBusy && !s.flushBusy

/-- Some operation is registered for stage 2. -/
def st2Busy (s : Cache c) : Bool :=
  s.st2.mshrAllocQ || s.st2.flushAllocQ || s.st2.dirUpdtQ.updt

theorem normal_iff : s.normal = true ↔
    s.mem.initQ = true ∧ s.miss.refillBusy = false ∧ s.flushBusy = false := by
  simp [normal, and_assoc]

/-- The flush controller is given lines by stage 2 and by the walks that flush. -/
theorem flushIn_alloc (h : s.cmo.HoldsFlush) (hst2 : s.st2.flushAllocQ = false)
    (hw : s.cmo.fsmQ.flushes = false) : (s.flushIn i).alloc = false := by
  have hfifo : s.cmo.flushFifo = [] := by
    by_contra hne
    rw [(h hne).2] at hw
    contradiction
  have hcmo : s.cmoFlushAlloc i = none := by
    unfold cmoFlushAlloc Cmo.flushAlloc
    rw [Cmo.flushReqIn_eq_none hw, hfifo]
    simp [Fifo.rdata]
  simp [flushIn, hst2, hcmo]

theorem flushBusy_step (h : s.cmo.HoldsFlush) (hb : s.flushBusy = false)
    (hst2 : s.st2.flushAllocQ = false) (hw : s.cmo.fsmQ.flushes = false) :
    (s.step i).flushBusy = false := by
  cases hwb : c.wbEn with
  | false => simp [flushBusy, hwb]
  | true =>
    have hb' : s.flush.busy = false := by simpa [flushBusy, hwb] using hb
    have hstep : (s.step i).flush = s.flush.step (s.flushIn i) := by simp [step, hwb]
    rw [flushBusy, hwb, Bool.true_and, hstep]
    exact Flush.busy_step hb' (flushIn_alloc h hst2 hw)

theorem initQ_step (h : s.mem.initQ = true) : (s.step i).mem.initQ = true := by
  simp [step, MemCtrl.step, h]

theorem normal_step (h : s.normal = true) (hr : (s.pe i).refillReqReady = false)
    (hf : (s.step i).flushBusy = false) : (s.step i).normal = true := by
  rw [normal_iff] at h ⊢
  exact ⟨initQ_step h.1, MissHandler.refillBusy_step h.2.1 hr, hf⟩

/-- Scrubbing reads do not enter stage 1, where the operation is decoded. -/
theorem peIn_decodes (h : s.st1.reqQ.errScrubbing = false) :
    (s.peIn i).St1Decodes (s.st1Req i).req.op := by
  have hs : (s.st1Req i).errScrubbing = false := by
    unfold st1Req
    split_ifs
    · exact h
    · exact h
  exact ⟨by simp [peIn, hs], rfl, rfl, rfl, rfl, rfl, rfl⟩

/-- The decision on the request in stage 1. -/
def dec (s : Cache c) (i : CacheIn c) : Decision := decision c (s.peIn i)

theorem pe_agrees (hn : (s.peIn i).normal = true) (h : s.st1.reqQ.errScrubbing = false) :
    PeAgrees (s.peIn i) (s.dec i) (s.pe i) :=
  hpdcacheCtrlPe_agrees hn (peIn_decodes h)

end Cache

end Hpdcache
