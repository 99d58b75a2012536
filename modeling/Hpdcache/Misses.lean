import Hpdcache.Replays

/-!
# The misses in flight

A miss goes from stage 2 to an entry of the MSHR and from there to the refill FSM, which ends by
writing the directory entry of the way that the miss reserves.

* `Cache.missAt` — the miss at each of these places.
* `Cache.missAt_step` — a miss stays in flight until its refill writes the directory.
-/

namespace Hpdcache

open Hw

variable {c : Cfg}

/-! ## The table -/

namespace Mshr

variable {m : Mshr c} {i : MshrIn c} {a : Fin c.mshrSets} {b : Fin c.mshrWays}

theorem allocWay_free {n : Nline c} (h : ∃ w, m.validQ (setOf n) w = false) :
    m.validQ (setOf n) (m.allocWay n) = false := by
  obtain ⟨w, hw⟩ := h
  have hsome : (first? fun w => !m.validQ (setOf n) w).isSome = true :=
    first?_isSome_iff.2 ⟨w, by simp [hw]⟩
  obtain ⟨v, hv⟩ := Option.isSome_iff_exists.1 hsome
  have hmem := first?_mem hv
  unfold allocWay toIndex
  rw [hv, Option.getD_some]
  simpa using hmem

/-- An entry that is neither taken nor acknowledged stays. -/
theorem entry_step (hv : m.validQ a b = true)
    (hack : i.ack = true → ¬(a = i.ackSet ∧ b = i.ackWay))
    (hexcl : i.alloc = true → i.ack = false)
    (halloc : i.alloc = true → ¬(a = setOf i.allocNline ∧ b = m.allocWay i.allocNline)) :
    (m.step i).validQ a b = true ∧ (m.step i).cacheSetQ a b = m.cacheSetQ a b ∧
      (m.step i).ram a b = m.ram a b := by
  refine ⟨?_, ?_, ?_⟩
  · have hrst : (i.ack && decide (a = i.ackSet ∧ b = i.ackWay)) = false := by
      cases hk : i.ack with
      | false => rfl
      | true => simpa using hack hk
    simp only [step, hv, hrst]
    exact setRst_true_left _ _
  · simp only [step]
    exact if_neg fun h => halloc h.1 h.2
  · simp only [step]
    refine if_neg fun h => halloc h.2.1 ⟨?_, h.2.2.2⟩
    have haddr : addr i = setOf i.allocNline := by simp [addr, hexcl h.2.1, h.2.1]
    rw [← haddr]
    exact h.2.2.1

/-- An entry that is taken while none is acknowledged. -/
theorem alloc_step (hcs : i.allocCs = true) (ha : i.alloc = true) (hack : i.ack = false)
    (hroom : ∃ w, m.validQ (setOf i.allocNline) w = false) :
    let b := m.allocWay i.allocNline
    (m.step i).validQ (setOf i.allocNline) b = true ∧
      (m.step i).cacheSetQ (setOf i.allocNline) b = i.allocNline.set ∧
      (m.step i).ram (setOf i.allocNline) b = i.allocEntry := by
  have hfree := allocWay_free hroom
  refine ⟨?_, ?_, ?_⟩
  · simp [step, hfree, ha]
  · simp [step, ha]
  · simp [step, cs, addr, hcs, ha, hack]

end Mshr

/-! ## The refill FSM -/

/-- A miss: the line that is fetched, and the way that it goes to. -/
structure Miss (c : Cfg) where
  nline : Nline c
  way : Fin c.ways

namespace MissHandler

variable {m : MissHandler c} {i : MissIn c} {a : Fin c.mshrSets} {b : Fin c.mshrWays} {x : Miss c}

/-- The miss that an entry of the MSHR holds. -/
def mshrMiss (m : MissHandler c) (a : Fin c.mshrSets) (b : Fin c.mshrWays) : Miss c :=
  ⟨⟨(m.mshr.ram a b).tag, m.mshr.cacheSetQ a b⟩, (m.mshr.ram a b).victimWayIdx⟩

/-- The miss whose line is being written. -/
def refilling (m : MissHandler c) : Option (Miss c) :=
  match m.refillFsmQ with
  | .write =>
    some (if m.refillCntQ = 0 then ⟨⟨m.mshr.ackEntry.tag, m.ackCacheSet⟩, m.mshr.ackEntry.victimWayIdx⟩
      else ⟨m.refillNline, m.refillWayQ⟩)
  | .writeDir => some ⟨m.refillNline, m.refillWayQ⟩
  | _ => none

theorem refillBusy_of_refilling (h : m.refilling = some x) : m.refillBusy = true := by
  unfold refilling at h
  unfold refillBusy
  cases hf : m.refillFsmQ <;> rw [hf] at h <;> simp at h ⊢

/-- The response at the head of the buffer stays until it is consumed. -/
theorem head_step (hr : m.metaRok = true) (hc : (m.refillComb i).metaR = false) :
    (m.step i).head = m.head := by
  have hstep : (m.step i).respFifo =
    Fifo.step c.refillFifoDepth false m.respFifo i.memResp (m.refillComb i).metaR := rfl
  cases hq : m.respFifo with
  | nil => simp [metaRok, hq] at hr
  | cons r q =>
    rw [hc, Fifo.step_eq, hq] at hstep
    simp [head, hstep, hq]

/-- The response that the refill FSM takes acknowledges an entry of the MSHR. -/
theorem ack_cases (hk : (m.refillComb i).ack = true) :
    m.refillFsmQ = .idle ∧ m.metaRok = true ∧ i.refillReqReady = true ∧
      m.head.isInval = false := by
  unfold refillComb at hk
  cases hf : m.refillFsmQ with
  | idle =>
    rw [hf] at hk
    simp only [refillIdle, refillDefault] at hk
    split_ifs at hk with h1 h2 h3
    exact ⟨rfl, h1, h2, by simpa using h3⟩
  | write =>
    rw [hf] at hk
    simp only [refillWrite, refillChunk, refillFirst, refillNext, refillLast, refillDefault] at hk
    split_ifs at hk
  | writeDir =>
    rw [hf] at hk
    simp [refillLast, refillDefault] at hk
  | inval =>
    rw [hf] at hk
    simp [refillDefault] at hk

/-- What an acknowledge reads is there in the next cycle, when the refill FSM starts to write. -/
theorem ack_step (hk : (m.refillComb i).ack = true) (ha : i.alloc = false) :
    (m.step i).mshr.ackEntry = m.mshr.ram m.head.rSet m.head.rWay ∧
      (m.step i).ackCacheSet = m.mshr.cacheSetQ m.head.rSet m.head.rWay ∧
      (m.step i).refillFsmQ = .write ∧ (m.step i).refillCntQ = 0 := by
  obtain ⟨hf, hr, hready, hinv⟩ := ack_cases hk
  have hcomb : m.refillComb i =
      { m.refillDefault with
        ackCs := true, set := m.ackCacheSet, ack := true, cntD := 0, fsmD := .write } := by
    simp [refillComb, hf, refillIdle, hr, hready, hinv]
  have hhead : (m.step i).head = m.head := head_step hr (by rw [hcomb]; rfl)
  have hin : m.mshrIn i = { m.mshrIn i with
      alloc := false, ack := true, ackCs := true, ackSet := m.head.rSet, ackWay := m.head.rWay } := by
    simp [mshrIn, ha, hcomb]
  have hstep : (m.step i).mshr = m.mshr.step (m.mshrIn i) := rfl
  refine ⟨?_, ?_, ?_, ?_⟩
  · rw [hstep, hin]
    simp [Mshr.ackEntry, Mshr.step, Mshr.cs, Mshr.addr]
  · unfold ackCacheSet
    rw [hhead, hstep, hin]
    simp [Mshr.step]
  · simp [step, hcomb]
  · simp [step, hcomb]

/-- The entry that is acknowledged goes to the refill FSM. -/
theorem refilling_of_ack (hk : (m.refillComb i).ack = true) (ha : i.alloc = false) :
    (m.step i).refilling = some (m.mshrMiss m.head.rSet m.head.rWay) := by
  obtain ⟨hentry, hset, hfsm, hcnt⟩ := ack_step hk ha
  unfold refilling
  rw [hfsm, hcnt, if_pos rfl, hentry, hset]
  rfl

/-- The line of the refill is written to its end: the directory entry follows. -/
def completes (m : MissHandler c) (i : MissIn c) : Bool := (m.refillComb i).writeDir

/-- A refill goes on with the same miss until it writes the directory, where it says the way and
wakes the requests on hold. -/
theorem refilling_step (h : m.refilling = some x) :
    (m.completes i = false ∧ (m.step i).refilling = some x) ∨
      (m.completes i = true ∧ (m.refillComb i).updtRtab = true ∧ m.refillNline = x.nline ∧
        (m.refillComb i).set = x.nline.set ∧ (m.refillComb i).way = x.way) := by
  unfold refilling at h
  cases hf : m.refillFsmQ with
  | idle => rw [hf] at h; contradiction
  | inval => rw [hf] at h; contradiction
  | writeDir =>
    rw [hf] at h
    obtain rfl := Option.some.inj h
    right
    simp [completes, refillComb, hf, refillLast, refillDefault, refillNline]
  | write =>
    rw [hf] at h
    obtain hx := Option.some.inj h
    by_cases hcnt : m.refillCntQ = 0
    · rw [if_pos hcnt] at hx
      -- the registers are loaded with the entry
      have hload : m.refillLoad = true := by simp [refillLoad, hf, hcnt]
      left
      by_cases hlast : refillLastChunkWord c = 0
      · have hcomb : m.refillComb i = { m.refillFirst with
            writeData := !m.refillIsError, cntD := m.refillCntQ + c.accessWords, fsmD := .writeDir } := by
          simp [refillComb, hf, refillWrite, refillChunk, hcnt, hlast]
        refine ⟨by simp [completes, hcomb, refillFirst, refillDefault], ?_⟩
        unfold refilling
        have hfsm : (m.step i).refillFsmQ = .writeDir := by simp [step, hcomb]
        rw [hfsm, ← hx]
        simp [step, refillNline, hload]
      · have hne : ¬(0 = refillLastChunkWord c) := fun h => hlast h.symm
        have hcomb : m.refillComb i = { m.refillFirst with
            writeData := !m.refillIsError, cntD := m.refillCntQ + c.accessWords } := by
          simp [refillComb, hf, refillWrite, refillChunk, hcnt, hne]
        refine ⟨by simp [completes, hcomb, refillFirst, refillDefault], ?_⟩
        unfold refilling
        have hfsm : (m.step i).refillFsmQ = .write := by
          simp [step, hcomb, refillFirst, refillDefault, hf]
        have hcnt' : (m.step i).refillCntQ = c.accessWords := by simp [step, hcomb, hcnt]
        have hpos : ¬(c.accessWords = 0) := Nat.pos_iff_ne_zero.1 c.accessWords_pos
        rw [hfsm, hcnt', if_neg hpos, ← hx]
        simp [step, refillNline, hload]
    · rw [if_neg hcnt] at hx
      have hload : m.refillLoad = false := by simp [refillLoad, hcnt]
      by_cases hlast : m.refillCntQ = refillLastChunkWord c
      · right
        have hne : ¬(refillLastChunkWord c = 0) := fun h => hcnt (hlast.trans h)
        subst hx
        simp [completes, refillComb, hf, refillWrite, hlast, hne, refillLast, refillChunk, refillNext,
          refillNline]
      · left
        have hcomb : m.refillComb i = { m.refillNext with
            writeData := !m.refillIsError, cntD := m.refillCntQ + c.accessWords } := by
          simp [refillComb, hf, refillWrite, refillChunk, hcnt, hlast]
        refine ⟨by simp [completes, hcomb, refillNext, refillDefault], ?_⟩
        unfold refilling
        have hfsm : (m.step i).refillFsmQ = .write := by
          simp [step, hcomb, refillNext, refillDefault, hf]
        have hcnt' : ¬((m.step i).refillCntQ = 0) := by
          have hstep : (m.step i).refillCntQ = m.refillCntQ + c.accessWords := by simp [step, hcomb]
          rw [hstep]
          omega
        rw [hfsm, if_neg hcnt', ← hx]
        simp [step, refillNline, hload]

end MissHandler

/-! ## Misses of the cache -/

theorem Decision.mshrAlloc_cs {i : PeIn} (d : Decision) :
    (d.mshrAlloc i).cs = i.st2MshrAlloc := by
  cases d <;> rfl

theorem Decision.mshrAlloc_alloc {i : PeIn} (d : Decision) : (d.mshrAlloc i).alloc = d.misses := by
  cases d <;> rfl

/-- Where a miss is. -/
inductive MissSlot (c : Cfg)
  | st2
  | mshr (a : Fin c.mshrSets) (b : Fin c.mshrWays)
  | refill

namespace Cache

variable {s : Cache c} {i : CacheIn c} {x : Miss c} {k : MissSlot c}

def missAt (s : Cache c) : MissSlot c → Option (Miss c)
  | .st2 =>
    if s.st2.mshrAllocQ then
      some ⟨s.st2.mshrAllocNlineQ, toBinary c.ways_pos s.st2.mshrAllocVictimWayQ⟩
    else none
  | .mshr a b => if s.miss.mshr.validQ a b then some (s.miss.mshrMiss a b) else none
  | .refill => s.miss.refilling

/-- A miss registered for stage 2 finds the MSHR ready, with room in its set. -/
def Roomy (s : Cache c) : Prop :=
  s.st2.mshrAllocQ = true → s.miss.allocReady = true ∧
    ∃ w, s.miss.mshr.validQ (Mshr.setOf s.st2.mshrAllocNlineQ) w = false

theorem ack_not_alloc (hk : (s.miss.refillComb (s.missIn i)).ack = true) :
    s.st2.mshrAllocQ = false :=
  (refillReqReady_iff.1 (MissHandler.ack_cases hk).2.2.1).not_mshr

theorem not_ack (h : s.st2.mshrAllocQ = true) : (s.miss.refillComb (s.missIn i)).ack = false := by
  by_contra hk
  rw [ack_not_alloc (by simpa using hk)] at h
  contradiction

/-- The miss of stage 2 enters the MSHR. -/
theorem Owned.missAt_alloc (h : s.Owned) (hroom : s.Roomy) (ha : s.st2.mshrAllocQ = true) :
    (s.step i).missAt (.mshr (Mshr.setOf s.st2.mshrAllocNlineQ)
      (s.miss.mshr.allocWay s.st2.mshrAllocNlineQ)) =
        some ⟨s.st2.mshrAllocNlineQ, toBinary c.ways_pos s.st2.mshrAllocVictimWayQ⟩ := by
  obtain ⟨hready, hfree⟩ := hroom ha
  have hcs : (s.pe i).st2MshrAlloc.cs = true := by
    have hpe := (h.pe_agrees (i := i)).mshrAlloc
    rw [hpe, Decision.mshrAlloc_cs]
    exact ha
  have hstep : (s.step i).miss.mshr = s.miss.mshr.step (s.miss.mshrIn (s.missIn i)) := rfl
  have halloc := Mshr.alloc_step (m := s.miss.mshr) (i := s.miss.mshrIn (s.missIn i))
    (by simp [MissHandler.mshrIn, missIn, hready, hcs])
    (by simp [MissHandler.mshrIn, missIn, hready, ha]) (not_ack ha) hfree
  rw [← hstep] at halloc
  obtain ⟨hv, hset, hram⟩ := halloc
  have hv' : (s.step i).miss.mshr.validQ (Mshr.setOf s.st2.mshrAllocNlineQ)
    (s.miss.mshr.allocWay s.st2.mshrAllocNlineQ) = true := hv
  have hmiss : (s.step i).miss.mshrMiss (Mshr.setOf s.st2.mshrAllocNlineQ)
      (s.miss.mshr.allocWay s.st2.mshrAllocNlineQ) =
        ⟨s.st2.mshrAllocNlineQ, toBinary c.ways_pos s.st2.mshrAllocVictimWayQ⟩ := by
    unfold MissHandler.mshrMiss
    rw [show (s.step i).miss.mshr.cacheSetQ (Mshr.setOf s.st2.mshrAllocNlineQ)
        (s.miss.mshr.allocWay s.st2.mshrAllocNlineQ) = _ from hset,
      show (s.step i).miss.mshr.ram (Mshr.setOf s.st2.mshrAllocNlineQ)
        (s.miss.mshr.allocWay s.st2.mshrAllocNlineQ) = _ from hram]
    rfl
  simp only [missAt, hv', if_true, hmiss]

/-- An entry of the MSHR that is not acknowledged stays. -/
theorem missAt_mshr_keep {a : Fin c.mshrSets} {b : Fin c.mshrWays} (hroom : s.Roomy)
    (hv : s.miss.mshr.validQ a b = true)
    (hk : ¬((s.miss.refillComb (s.missIn i)).ack = true ∧ a = s.miss.head.rSet ∧
      b = s.miss.head.rWay)) :
    (s.step i).missAt (.mshr a b) = some (s.miss.mshrMiss a b) := by
  have hstep : (s.step i).miss.mshr = s.miss.mshr.step (s.miss.mshrIn (s.missIn i)) := rfl
  have hentry := Mshr.entry_step (m := s.miss.mshr) (i := s.miss.mshrIn (s.missIn i)) hv
    (fun hack hab => hk ⟨hack, hab⟩)
    (fun ha => by
      simp only [MissHandler.mshrIn, missIn, Bool.and_eq_true] at ha
      exact not_ack ha.2)
    (fun ha hab => by
      simp only [MissHandler.mshrIn, missIn, Bool.and_eq_true] at ha
      have hfree := Mshr.allocWay_free (hroom ha.2).2
      obtain ⟨rfl, rfl⟩ := hab
      rw [show s.miss.mshr.validQ (Mshr.setOf s.st2.mshrAllocNlineQ)
        (s.miss.mshr.allocWay s.st2.mshrAllocNlineQ) = true from hv] at hfree
      contradiction)
  rw [← hstep] at hentry
  obtain ⟨hv', hset, hram⟩ := hentry
  simp only [missAt, hv', if_true, MissHandler.mshrMiss, hset, hram]

/-- An entry of the MSHR stays or goes to the refill FSM. -/
theorem missAt_mshr_step {a : Fin c.mshrSets} {b : Fin c.mshrWays} (hroom : s.Roomy)
    (hv : s.miss.mshr.validQ a b = true) :
    (s.step i).missAt (.mshr a b) = some (s.miss.mshrMiss a b) ∨
      (s.step i).missAt .refill = some (s.miss.mshrMiss a b) := by
  by_cases hk : (s.miss.refillComb (s.missIn i)).ack = true ∧
      a = s.miss.head.rSet ∧ b = s.miss.head.rWay
  · right
    obtain ⟨hack, rfl, rfl⟩ := hk
    exact MissHandler.refilling_of_ack hack (ack_not_alloc hack)
  · exact .inl (missAt_mshr_keep hroom hv hk)

/-- A miss stays in flight until its refill writes the directory. -/
theorem Owned.missAt_step (h : s.Owned) (hroom : s.Roomy) (hk : s.missAt k = some x) :
    (∃ k', (s.step i).missAt k' = some x) ∨
      ((s.refill i).writeDir = true ∧ (s.refill i).updtRtab = true ∧
        s.miss.refillNline = x.nline ∧ (s.refill i).set = x.nline.set ∧
          (s.refill i).way = x.way) := by
  cases k with
  | st2 =>
    simp only [missAt] at hk
    split_ifs at hk with ha
    obtain rfl := Option.some.inj hk
    exact .inl ⟨_, h.missAt_alloc hroom ha⟩
  | mshr a b =>
    simp only [missAt] at hk
    split_ifs at hk with hv
    obtain rfl := Option.some.inj hk
    exact .inl ((missAt_mshr_step hroom hv).elim (fun hm => ⟨_, hm⟩) fun hm => ⟨_, hm⟩)
  | refill =>
    rcases MissHandler.refilling_step (i := s.missIn i) hk with ⟨-, hr⟩ | ⟨h1, h2⟩
    · exact .inl ⟨.refill, hr⟩
    · exact .inr ⟨h1, h2⟩

/-- Nothing is in flight when the miss handler is empty. -/
theorem missAt_eq_none (he : s.mshrEmpty = true) (hst2 : s.st2.mshrAllocQ = false) :
    s.missAt k = none := by
  simp only [mshrEmpty, MissHandler.empty, Mshr.empty, Bool.and_eq_true, decide_eq_true_eq,
    Bool.not_eq_true'] at he
  cases k with
  | st2 => simp [missAt, hst2]
  | mshr a b => simp [missAt, he.1 a b]
  | refill =>
    cases hr : s.miss.refilling with
    | none => exact hr
    | some x =>
      rw [MissHandler.refillBusy_of_refilling hr] at he
      exact absurd he.2 (by simp)

end Cache

end Hpdcache
