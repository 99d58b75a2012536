import Hpdcache.Reserved
import Hpdcache.WbufWf

/-!
# Units with nothing left

A unit that is empty takes a new line only when it is given one. The flush controller is empty when
the memory has acknowledged every line, and can then take another one: the memory does not
acknowledge a line before it has been sent it.

* `Flush.Drains` — an empty flush controller has nothing left to send.
* `Cache.Alone` — nothing is in flight but the request in stage 1.
-/

namespace Hpdcache

open Hw

variable {c : Cfg}

/-! ## The flush controller -/

namespace Flush

variable {f : Flush c} {i : FlushIn c}

/-- Nothing is left to be read or sent. -/
structure Sent (f : Flush c) : Prop where
  fsm : f.fsmQ = .idle
  metas : f.metaFifo = []
  resizer : f.resizer = ⟨[], []⟩

/-- The memory acknowledges a line after it has been sent it: with no other line in the controller,
nothing is left to send. -/
def Answers (f : Flush c) (ack : Option (Fin c.flushEntries)) : Prop :=
  ∀ k, ack = some k → (∀ j, f.validQ j = true → j = k) → f.Sent

structure Drains (f : Flush c) : Prop where
  held : f.freeArb.Held fun k => !f.validQ k
  sent : f.empty = true → f.Sent

theorem drains_reset (f : Flush c) : f.reset.Drains :=
  ⟨FxArb.held_reset, fun _ => ⟨rfl, rfl, rfl⟩⟩

theorem empty_iff : f.empty = true ↔ ∀ k, f.validQ k = false := by
  simp [empty, any_eq_false]

/-- An empty controller takes a line. -/
theorem Drains.ready_of_empty (h : f.Drains) (he : f.empty = true) : f.allocReady = true := by
  obtain ⟨hfsm, hmeta, hres⟩ := h.sent he
  have hfull : f.full = false := by
    rw [full, all_eq_false]
    exact ⟨⟨0, c.flushEntries_pos⟩, empty_iff.1 he _⟩
  have hdepth := c.flushFifoDepth_pos
  simp [allocReady, hfsm, resizerWok, Resizer.wok, hres, hdepth, metaWok, Fifo.wok, hmeta, hfull]

/-- The arbiter of the free entries grants a free entry. -/
theorem held_step (h : f.freeArb.Held fun k => !f.validQ k) :
    (f.step i).freeArb.Held fun k => !(f.step i).validQ k := by
  refine h.step fun hready k hk => ?_
  have hfree := h.gnt_mem hk
  simp only [Bool.not_eq_true'] at hfree ⊢
  simp [step, hfree, hready]

/-- A line that is taken is valid. -/
theorem Drains.not_empty_of_doAlloc (h : f.Drains) (ha : f.doAlloc i = true) :
    (f.step i).empty = false := by
  have hready : f.allocReady = true := by
    simp only [doAlloc, Bool.and_eq_true] at ha
    exact ha.2
  have hfull : f.full = false := by
    simp only [allocReady, Bool.and_eq_true, Bool.not_eq_true'] at hready
    exact hready.2
  obtain ⟨j, hj⟩ := all_eq_false.1 hfull
  have hany : any f.freeBv = true := by
    rw [freeBv, h.held.any_gnt, any_eq_true]
    exact ⟨j, by simp [hj]⟩
  obtain ⟨k, hk⟩ := any_eq_true.1 hany
  have hfree := h.held.gnt_mem hk
  simp only [Bool.not_eq_true'] at hfree
  by_contra hne
  have hk' := empty_iff.1 (by simpa using hne) k
  simp [step, hfree, hk, ha] at hk'

/-- A controller with nothing left to send stays so until it is given a line. -/
theorem Sent.step (h : f.Sent) (ha : f.doAlloc i = false) : (f.step i).Sent := by
  obtain ⟨hfsm, hmeta, hres⟩ := h
  have hdepth := c.flushFifoDepth_pos
  have halloc : i.alloc = true → f.full = true := by
    simpa [doAlloc, allocReady, hfsm, resizerWok, Resizer.wok, hres, hdepth, metaWok, Fifo.wok,
      hmeta] using ha
  refine ⟨?_, ?_, ?_⟩
  · simp [Flush.step, hfsm, ha]
  · have hw : ¬((decide (f.fsmQ = .idle) && f.resizerWok && !f.full && i.alloc) = true) := by
      simp only [Bool.and_eq_true, Bool.not_eq_true']
      rintro ⟨⟨-, hfull⟩, hi⟩
      rw [halloc hi] at hfull
      contradiction
    simp only [Flush.step, hmeta]
    rw [if_neg hw]
    exact Fifo.step_nil_none
  · simp [Flush.step, Resizer.step, Resizer.read, hfsm, hres]

theorem Drains.step (h : f.Drains) (hans : f.Answers i.ack) : (f.step i).Drains := by
  refine ⟨held_step h.held, fun he => ?_⟩
  have ha : f.doAlloc i = false := by
    by_contra ha
    rw [h.not_empty_of_doAlloc (by simpa using ha)] at he
    contradiction
  by_cases hempty : f.empty = true
  · exact (h.sent hempty).step ha
  · -- the only line is acknowledged in this cycle
    have hack : ∀ k, f.validQ k = true → i.ack = some k := by
      intro k hk
      have hk' := empty_iff.1 he k
      simpa [Flush.step, hk, ackBv] using hk'
    obtain ⟨k, hk⟩ : ∃ k, f.validQ k = true := by
      simpa [empty, any_eq_true] using hempty
    refine (hans k (hack k hk) fun j hj => ?_).step ha
    have hj' := hack j hj
    rw [hack k hk] at hj'
    exact (Option.some.inj hj').symm

/-- A controller that is given nothing stays empty. -/
theorem empty_step (he : f.empty = true) (ha : i.alloc = false) : (f.step i).empty = true := by
  rw [empty_iff] at he ⊢
  intro k
  simp [Flush.step, he k, doAlloc, ha]

end Flush

/-! ## The write buffer and the MSHR -/

/-- A buffer that takes no write stays empty. -/
theorem Wbuf.empty_step {b : Wbuf c} {i : WbufIn c} (he : b.empty = true)
    (hw : (i.write && b.writeReady i.cfg (Wbuf.tag i)) = false) : (b.step i).empty = true := by
  simp only [Wbuf.empty, all_eq_true, Wbuf.inState_eq_true] at he ⊢
  intro k
  have ht : b.takes i k = false := by
    simp only [Wbuf.writeReady, Bool.and_eq_false_iff, Bool.or_eq_false_iff] at hw
    simp only [Wbuf.takes, Bool.and_eq_false_iff]
    exact .inl (hw.imp id And.left)
  have hstep : (b.step i).stateQ k = b.stateNext i k := rfl
  rw [hstep, Wbuf.stateNext, he k]
  simp [ht]

theorem Mshr.empty_iff {m : Mshr c} : m.empty = true ↔ ∀ a b, m.validQ a b = false := by
  simp [Mshr.empty]

theorem Mshr.empty_step {m : Mshr c} {i : MshrIn c} (he : m.empty = true) (ha : i.alloc = false) :
    (m.step i).empty = true := by
  rw [Mshr.empty_iff] at he ⊢
  intro a b
  simp [Mshr.step, he a b, ha]

/-! ## Nothing but the request in stage 1 -/

namespace Cache

variable {s : Cache c} {i : CacheIn c}

/-- Nothing is in flight but the request in stage 1. -/
structure Alone (s : Cache c) : Prop where
  st2 : s.st2Busy = false
  wbuf : s.wbufEmpty = true
  mshr : s.mshrEmpty = true
  flush : s.flushEmpty = true
  rtab : ∀ k, s.rtab.validQ k = true → s.popped = some k

/-- The memory acknowledges what it has been sent. -/
def Answers (s : Cache c) (i : CacheIn c) : Prop :=
  c.wbEn = true → s.flush.Answers i.flushAck

theorem flushAllocReady_of_empty (h : s.flush.Drains) (he : s.flushEmpty = true) :
    s.flushAllocReady = true := by
  unfold flushEmpty at he
  unfold flushAllocReady
  cases hwb : c.wbEn with
  | false => rfl
  | true => exact h.ready_of_empty (by simpa [hwb] using he)

theorem drains_step (h : s.flush.Drains) (hans : s.Answers i) : (s.step i).flush.Drains := by
  cases hwb : c.wbEn with
  | false =>
    have hstep : (s.step i).flush = s.flush := by simp [step, hwb]
    rw [hstep]
    exact h
  | true =>
    have hstep : (s.step i).flush = s.flush.step (s.flushIn i) := by simp [step, hwb]
    rw [hstep]
    exact h.step (hans hwb)

theorem Owned.flushEmpty_step (h : s.Owned) (hst2 : s.st2.flushAllocQ = false)
    (hw : s.cmo.fsmQ.walks = false) (he : s.flushEmpty = true) : (s.step i).flushEmpty = true := by
  unfold flushEmpty at he ⊢
  cases hwb : c.wbEn with
  | false => rfl
  | true =>
    have hflush : s.cmo.fsmQ.flushes = false := by
      by_contra hf
      rw [CmoFsm.walks_of_flushes (by simpa using hf)] at hw
      contradiction
    have hstep : (s.step i).flush = s.flush.step (s.flushIn i) := by simp [Cache.step, hwb]
    rw [hstep]
    simpa using Flush.empty_step (by simpa [hwb] using he) (flushIn_alloc h.holds hst2 hflush)

theorem Owned.wbufEmpty_step (h : s.Owned) (hw : (s.dec i).writesWbuf = false)
    (he : s.wbufEmpty = true) : (s.step i).wbufEmpty = true := by
  unfold wbufEmpty at he ⊢
  cases hwt : c.wtEn with
  | false => rfl
  | true =>
    have hpe := (h.pe_agrees (i := i)).wbufWrite
    have hready : (s.peIn i).wbufWriteReady = s.wbuf.writeReady i.cfgWbuf (s.wbufTag i) := by
      simp [peIn, hwt]
    rw [hw, hready] at hpe
    have hstep : (s.step i).wbuf = s.wbuf.step (s.wbufIn i) := by simp [Cache.step, hwt]
    rw [hstep]
    simpa using Wbuf.empty_step (by simpa [hwt] using he) hpe

theorem mshr_empty_step (ha : s.st2.mshrAllocQ = false) (he : s.miss.mshr.empty = true) :
    (s.step i).miss.mshr.empty = true :=
  Mshr.empty_step he (by simp [MissHandler.mshrIn, missIn, ha])

end Cache

end Hpdcache
