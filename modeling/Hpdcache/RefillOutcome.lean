import Hpdcache.Misses
import Hpdcache.RefillLine

/-!
# From a miss to its line

The misses that are allocated run beside the refills: what each was asked with, until the refill
takes its entry of the MSHR. The refill of a response then acts on the miss that the response
answers.

**Errors.** Each beat of a response may be flagged in error by the memory. The flag that is kept is
that of the last beat.

* `Serving.step` — one cycle, with the misses in flight.
* `Serving.Inv` — the MSHR and the coalescing buffer hold the misses in flight.
* `Serving.refilled_iff` — when the line, the entry and the response are right.
* `Serving.aggregated_iff` — when an error in a beat is one of the line, of the core and of the
  request on hold.
-/

namespace Hpdcache

open Hw
open Refilling (Pending pendingOf mergedLine refilledEntry refilledRsp chunks refillCycles)

/-- The refills and the misses that wait for them. -/
structure Serving (k : RefillCfg) where
  sys : Refilling k
  misses : Fin k.cache.mshrSets → Fin k.cache.mshrWays → Option (Pending k.cache)

namespace Serving

variable {k : RefillCfg}

def start (u : Refiller k) : Serving k := ⟨Refilling.start u, fun _ _ => none⟩

variable (s : Serving k) (i : RefillIn k)

/-- The requests on the MSHR in the cycle. -/
def mshrIn : MshrIn k.cache := s.sys.unit.view.mshrIn i.miss

/-- The miss of an allocation. -/
def asked : Pending k.cache where
  set := i.miss.allocNline.set
  entry := (s.mshrIn i).allocEntry
  store := ⟨i.miss.allocWdata, i.miss.allocBe⟩

/-- The allocation takes the entry. -/
def Takes (a : Fin k.cache.mshrSets) (b : Fin k.cache.mshrWays) : Prop :=
  (s.mshrIn i).alloc = true ∧ a = Mshr.setOf i.miss.allocNline ∧
    b = s.sys.unit.miss.mshr.allocWay i.miss.allocNline

/-- The refill takes the miss of the entry. -/
def Acks (a : Fin k.cache.mshrSets) (b : Fin k.cache.mshrWays) : Prop :=
  (s.mshrIn i).ack = true ∧ a = (s.mshrIn i).ackSet ∧ b = (s.mshrIn i).ackWay

instance (a : Fin k.cache.mshrSets) (b : Fin k.cache.mshrWays) : Decidable (s.Takes i a b) :=
  inferInstanceAs (Decidable (_ ∧ _))

instance (a : Fin k.cache.mshrSets) (b : Fin k.cache.mshrWays) : Decidable (s.Acks i a b) :=
  inferInstanceAs (Decidable (_ ∧ _))

def step : Serving k where
  sys := s.sys.step i
  misses := fun a b =>
    if s.Takes i a b then some (s.asked i) else if s.Acks i a b then none else s.misses a b

/-- The responses that the refill FSM has not taken. -/
def waiting : List (Resp k.cache) :=
  if s.sys.unit.miss.refillFsmQ = .idle then s.sys.box.pend else s.sys.box.pend.tail

/-- The controller allocates a miss of a word of the line when there is room for it, and does not
grant the pipeline in that cycle. The memory answers each miss once. -/
structure Promised : Prop where
  framed : s.sys.Framed i
  cs : i.miss.alloc = true → i.miss.allocCs = true
  room : i.miss.alloc = true →
    ∃ w, s.sys.unit.miss.mshr.validQ (Mshr.setOf i.miss.allocNline) w = false
  cbuf : i.miss.alloc = true → k.cache.wbEn = true → i.miss.allocDirty = true →
    s.sys.unit.miss.cbuf.allocFull = false
  word : i.miss.alloc = true → i.miss.allocWord < k.cache.clWords
  grant : i.miss.refillReqReady = true → i.miss.alloc = false
  answers : ∀ y, i.resp = some y → y.inval = false → y.rLast = true →
    s.misses y.rSet y.rWay ≠ none ∧
      ∀ r ∈ s.waiting, r.isInval = false → ¬(r.last.rSet = y.rSet ∧ r.last.rWay = y.rWay)

/-- The store of a miss is in the coalescing buffer. -/
def Coalesced (p : Pending k.cache) : Prop := k.cache.wbEn = true ∧ p.entry.dirty = true

/-- The MSHR and the coalescing buffer hold the misses in flight. -/
structure Inv (s : Serving k) : Prop where
  sys : s.sys.Inv
  held : ∀ a b p, s.misses a b = some p →
    s.sys.unit.miss.mshr.validQ a b = true ∧ s.sys.unit.miss.mshr.cacheSetQ a b = p.set ∧
      s.sys.unit.miss.mshr.ram a b = p.entry ∧ p.entry.wordIdx < k.cache.clWords
  store : ∀ a b p, s.misses a b = some p → Coalesced p →
    s.sys.unit.miss.cbuf.validQ p.entry.cbufId = true ∧
      s.sys.unit.miss.cbuf.entriesQ p.entry.cbufId = p.store
  apart : ∀ a b p a' b' p', s.misses a b = some p → s.misses a' b' = some p' →
    Coalesced p → Coalesced p' → p.entry.cbufId = p'.entry.cbufId → a = a' ∧ b = b'
  /-- The store of the miss that is loaded is freed in that cycle, and is no other's. -/
  loading : s.sys.unit.miss.refillLoad = true → k.cache.wbEn = true →
    s.sys.unit.miss.mshr.ackEntry.dirty = true →
    s.sys.unit.miss.cbuf.validQ s.sys.unit.miss.mshr.ackEntry.cbufId = true ∧
      ∀ a b p, s.misses a b = some p → Coalesced p →
        p.entry.cbufId ≠ s.sys.unit.miss.mshr.ackEntry.cbufId
  answered : ∀ r ∈ s.waiting, r.isInval = false → s.misses r.last.rSet r.last.rWay ≠ none
  once : s.waiting.Pairwise fun r r' => r.isInval = false → r'.isInval = false →
    ¬(r.last.rSet = r'.last.rSet ∧ r.last.rWay = r'.last.rWay)

/-! ## What a cycle does to the misses -/

section
variable {s : Serving k} {i : RefillIn k} {a a' : Fin k.cache.mshrSets}
  {b b' : Fin k.cache.mshrWays} {p p' : Pending k.cache}

theorem start_inv (u : Refiller k) : (start u).Inv where
  sys := Refilling.start_inv u
  held := nofun
  store := nofun
  apart := nofun
  loading := by
    intro h
    have hfsm : (start u).sys.unit.miss.refillFsmQ = .idle := rfl
    simp [MissHandler.refillLoad, hfsm] at h
  answered := nofun
  once := List.Pairwise.nil

theorem alloc_of_mshrIn (h : (s.mshrIn i).alloc = true) : i.miss.alloc = true :=
  (Bool.and_eq_true_iff.1 h).2

/-- Nothing is allocated in the cycle of a grant. -/
theorem not_ack (h : Promised s i) (ha : (s.mshrIn i).alloc = true) :
    (s.mshrIn i).ack = false := by
  rw [Bool.eq_false_iff]
  intro hk
  obtain ⟨-, -, hready, -⟩ := MissHandler.ack_cases hk
  have hno := h.grant hready
  rw [alloc_of_mshrIn ha] at hno
  contradiction

/-- The refill FSM takes the first response that waits. -/
theorem acked (h : s.Inv) (hk : (s.mshrIn i).ack = true) :
    ∃ r rest, s.waiting = r :: rest ∧ s.sys.box.pend = r :: rest ∧ r.isInval = false ∧
      s.sys.unit.miss.refillFsmQ = .idle ∧ (s.mshrIn i).ackSet = r.last.rSet ∧
      (s.mshrIn i).ackWay = r.last.rWay := by
  obtain ⟨hfsm, hrok, -, hv⟩ := MissHandler.ack_cases hk
  obtain ⟨r, rest, hp⟩ := h.sys.pend_of_metaRok hrok
  obtain ⟨-, hinv, -, hset, hway⟩ := h.sys.head hp
  have hidle : s.sys.unit.miss.refillFsmQ = .idle := hfsm
  have hwait : s.waiting = r :: rest := by
    rw [waiting, if_pos hidle]
    exact hp
  exact ⟨r, rest, hwait, hp, hinv.symm.trans hv, hfsm, hset, hway⟩

/-- A miss in flight was so or is allocated. -/
theorem misses_step (hp : (s.step i).misses a b = some p) :
    (s.Takes i a b ∧ p = s.asked i) ∨
      (¬s.Takes i a b ∧ ¬s.Acks i a b ∧ s.misses a b = some p) := by
  have hstep : (s.step i).misses a b =
      if s.Takes i a b then some (s.asked i) else if s.Acks i a b then none else s.misses a b := rfl
  rw [hstep] at hp
  split_ifs at hp with h1 h2
  · exact .inl ⟨h1, (Option.some.inj hp).symm⟩
  · exact .inr ⟨h1, h2, hp⟩

theorem mshr_step : (s.step i).sys.unit.miss.mshr = s.sys.unit.miss.mshr.step (s.mshrIn i) := rfl

theorem Inv.held_step (h : s.Inv) (hpr : s.Promised i) (hp : (s.step i).misses a b = some p) :
    (s.step i).sys.unit.miss.mshr.validQ a b = true ∧
      (s.step i).sys.unit.miss.mshr.cacheSetQ a b = p.set ∧
      (s.step i).sys.unit.miss.mshr.ram a b = p.entry ∧ p.entry.wordIdx < k.cache.clWords := by
  rw [mshr_step]
  rcases misses_step hp with ⟨⟨halloc, rfl, rfl⟩, rfl⟩ | ⟨htake, hack, hold⟩
  · have ha := alloc_of_mshrIn halloc
    have hcs : (s.mshrIn i).allocCs = true := by
      have hready := (Bool.and_eq_true_iff.1 halloc).1
      exact Bool.and_eq_true_iff.2 ⟨hready, hpr.cs ha⟩
    obtain ⟨h1, h2, h3⟩ := Mshr.alloc_step hcs halloc (not_ack hpr halloc) (hpr.room ha)
    exact ⟨h1, h2, h3, hpr.word ha⟩
  · obtain ⟨hv, hset, hram, hw⟩ := h.held a b p hold
    obtain ⟨h1, h2, h3⟩ := Mshr.entry_step (i := s.mshrIn i) hv (fun hk hx => hack ⟨hk, hx⟩)
      (not_ack hpr) (fun ha hx => htake ⟨ha, hx⟩)
    exact ⟨h1, h2.trans hset, h3.trans hram, hw⟩

/-! ## The coalescing buffer -/

/-- An entry of the coalescing buffer is taken. -/
def cbufAlloc (s : Serving k) (i : RefillIn k) : Bool :=
  k.cache.wbEn && i.miss.allocDirty && (s.mshrIn i).alloc

/-- The entry of the store that is loaded is freed. -/
def cbufAck (s : Serving k) : Bool :=
  k.cache.wbEn && s.sys.unit.miss.mshr.ackEntry.dirty && s.sys.unit.miss.refillLoad

theorem cbuf_step : (s.step i).sys.unit.miss.cbuf =
    s.sys.unit.miss.cbuf.step (s.cbufAlloc i) ⟨i.miss.allocWdata, i.miss.allocBe⟩ s.cbufAck
      s.sys.unit.miss.mshr.ackEntry.cbufId := by
  have hack : (k.cache.wbEn && (s.sys.unit.out i).dirty && s.sys.unit.view.refillLoad) =
      s.cbufAck := by
    unfold cbufAck
    cases hl : s.sys.unit.miss.refillLoad with
    | false =>
      have hl' : s.sys.unit.view.refillLoad = false := hl
      rw [hl', Bool.and_false, Bool.and_false]
    | true =>
      have hl' : s.sys.unit.view.refillLoad = true := hl
      have hdirty : (s.sys.unit.out i).dirty = s.sys.unit.miss.mshr.ackEntry.dirty :=
        MissHandler.dirty_of_load hl'
      rw [hl', hdirty]
  rw [← hack]
  rfl

theorem allocId_free {c : Cfg} {x : Cbuf c} (h : x.allocFull = false) :
    x.validQ x.allocId = false := by
  obtain ⟨j, hj⟩ := all_eq_false.1 h
  have hsome : (first? fun j => !x.validQ j).isSome = true :=
    first?_isSome_iff.2 ⟨j, by simp [hj]⟩
  obtain ⟨v, hv⟩ := Option.isSome_iff_exists.1 hsome
  have hmem := first?_mem hv
  unfold Cbuf.allocId toIndex
  rw [hv, Option.getD_some]
  simpa using hmem

theorem alloc_free (hpr : s.Promised i) (h : s.cbufAlloc i = true) :
    s.sys.unit.miss.cbuf.validQ s.sys.unit.miss.cbuf.allocId = false := by
  simp only [cbufAlloc, Bool.and_eq_true] at h
  exact allocId_free (hpr.cbuf (alloc_of_mshrIn h.2) h.1.1 h.1.2)

/-- An entry that is not freed stays. -/
theorem cbuf_keep (hpr : s.Promised i) {j : Fin k.cache.cbufEntries}
    (hv : s.sys.unit.miss.cbuf.validQ j = true)
    (hack : s.cbufAck = true → j ≠ s.sys.unit.miss.mshr.ackEntry.cbufId) :
    (s.step i).sys.unit.miss.cbuf.validQ j = true ∧
      (s.step i).sys.unit.miss.cbuf.entriesQ j = s.sys.unit.miss.cbuf.entriesQ j := by
  rw [cbuf_step]
  refine ⟨?_, ?_⟩
  · have hno : (s.cbufAck && decide (j = s.sys.unit.miss.mshr.ackEntry.cbufId)) = false := by
      rw [Bool.and_eq_false_iff, decide_eq_false_iff_not]
      by_cases hx : s.cbufAck = true
      · exact .inr (hack hx)
      · exact .inl (Bool.eq_false_iff.2 hx)
    simp only [Cbuf.step, hv, hno, Bool.not_false, Bool.and_true, Bool.or_true]
  · apply if_neg
    rintro ⟨ha, rfl⟩
    rw [alloc_free hpr ha] at hv
    contradiction

/-- The store of a miss in flight is not the one that is freed. -/
theorem Inv.not_freed (h : s.Inv) (hm : s.misses a b = some p) (hc : Coalesced p)
    (hack : s.cbufAck = true) : p.entry.cbufId ≠ s.sys.unit.miss.mshr.ackEntry.cbufId := by
  simp only [cbufAck, Bool.and_eq_true] at hack
  exact (h.loading hack.2 hack.1.1 hack.1.2).2 a b p hm hc

theorem Inv.store_step (h : s.Inv) (hpr : s.Promised i)
    (hp : (s.step i).misses a b = some p) (hc : Coalesced p) :
    (s.step i).sys.unit.miss.cbuf.validQ p.entry.cbufId = true ∧
      (s.step i).sys.unit.miss.cbuf.entriesQ p.entry.cbufId = p.store := by
  rcases misses_step hp with ⟨⟨halloc, -, -⟩, rfl⟩ | ⟨-, -, hold⟩
  · have ha : s.cbufAlloc i = true := by
      simp only [cbufAlloc, Bool.and_eq_true]
      exact ⟨⟨hc.1, hc.2⟩, halloc⟩
    have hid : (s.asked i).entry.cbufId = s.sys.unit.miss.cbuf.allocId := rfl
    rw [cbuf_step, hid]
    simp [Cbuf.step, ha, asked]
  · obtain ⟨hv, he⟩ := h.store a b p hold hc
    obtain ⟨hv', he'⟩ := cbuf_keep hpr hv (h.not_freed hold hc)
    exact ⟨hv', he'.trans he⟩

/-- The store of an allocation is not in the buffer yet. -/
theorem Inv.asked_apart (h : s.Inv) (hpr : s.Promised i) (halloc : (s.mshrIn i).alloc = true)
    (hc : Coalesced (s.asked i)) (hm : s.misses a b = some p) (hc' : Coalesced p) :
    p.entry.cbufId ≠ (s.asked i).entry.cbufId := by
  intro heq
  have ha : s.cbufAlloc i = true := by
    simp only [cbufAlloc, Bool.and_eq_true]
    exact ⟨⟨hc.1, hc.2⟩, halloc⟩
  have hfree := alloc_free hpr ha
  have hv := (h.store a b p hm hc').1
  have hid : (s.asked i).entry.cbufId = s.sys.unit.miss.cbuf.allocId := rfl
  rw [heq, hid, hfree] at hv
  contradiction

theorem Inv.apart_step (h : s.Inv) (hpr : s.Promised i)
    (hp : (s.step i).misses a b = some p) (hp' : (s.step i).misses a' b' = some p')
    (hc : Coalesced p) (hc' : Coalesced p') (heq : p.entry.cbufId = p'.entry.cbufId) :
    a = a' ∧ b = b' := by
  rcases misses_step hp with ⟨⟨halloc, rfl, rfl⟩, rfl⟩ | ⟨-, -, hold⟩
  · rcases misses_step hp' with ⟨⟨-, rfl, rfl⟩, -⟩ | ⟨-, -, hold'⟩
    · exact ⟨rfl, rfl⟩
    · exact absurd heq.symm (h.asked_apart hpr halloc hc hold' hc')
  · rcases misses_step hp' with ⟨⟨halloc, -, -⟩, rfl⟩ | ⟨-, -, hold'⟩
    · exact absurd heq (h.asked_apart hpr halloc hc' hold hc)
    · exact h.apart a b p a' b' p' hold hold' hc hc' heq

/-- The miss that is loaded is the one that was taken in the last cycle. -/
theorem load_step (hl : (s.step i).sys.unit.miss.refillLoad = true) :
    (s.mshrIn i).ack = true ∧ (s.mshrIn i).ackCs = true :=
  MissHandler.ack_of_load (m := s.sys.unit.view) (i := i.miss) hl

theorem Inv.loading_step (h : s.Inv) (hpr : s.Promised i)
    (hl : (s.step i).sys.unit.miss.refillLoad = true) (hw : k.cache.wbEn = true)
    (hd : (s.step i).sys.unit.miss.mshr.ackEntry.dirty = true) :
    (s.step i).sys.unit.miss.cbuf.validQ (s.step i).sys.unit.miss.mshr.ackEntry.cbufId = true ∧
      ∀ a b p, (s.step i).misses a b = some p → Coalesced p →
        p.entry.cbufId ≠ (s.step i).sys.unit.miss.mshr.ackEntry.cbufId := by
  obtain ⟨hk, hcs⟩ := load_step hl
  obtain ⟨r, rest, hwait, -, hv, hfsm, hset, hway⟩ := acked h hk
  obtain ⟨q, hq⟩ := Option.ne_none_iff_exists'.1
    (h.answered r (by rw [hwait]; exact List.mem_cons_self) hv)
  have halloc : (s.mshrIn i).alloc = false := by
    cases ha : (s.mshrIn i).alloc with
    | false => rfl
    | true =>
      rw [not_ack hpr ha] at hk
      contradiction
  have hentry : (s.step i).sys.unit.miss.mshr.ackEntry = q.entry := by
    obtain ⟨-, -, hram, -⟩ := h.held _ _ q hq
    rw [mshr_step, ← hram, ← hset, ← hway]
    simp [Mshr.step, Mshr.ackEntry, Mshr.cs, Mshr.addr, halloc, hk, hcs]
  rw [hentry] at hd ⊢
  have hcq : Coalesced q := ⟨hw, hd⟩
  have hnoack : s.cbufAck ≠ true := by
    have hno : s.sys.unit.miss.refillLoad = false := by
      simp [MissHandler.refillLoad, hfsm]
    simp [cbufAck, hno]
  obtain ⟨hvq, -⟩ := h.store _ _ q hq hcq
  refine ⟨(cbuf_keep hpr hvq fun hx => absurd hx hnoack).1, ?_⟩
  intro a b p hp hc heq
  rcases misses_step hp with ⟨⟨ha, -, -⟩, -⟩ | ⟨-, hack, hold⟩
  · rw [halloc] at ha
    contradiction
  · obtain ⟨ha, hb⟩ := h.apart a b p _ _ q hold hq hc hcq heq
    exact hack ⟨hk, ha.trans hset.symm, hb.trans hway.symm⟩

/-! ## The responses -/

/-- A response waits from its last beat until the refill FSM leaves the idle state for it. -/
theorem waiting_step (h : s.Inv) :
    (s.step i).waiting =
      (if s.sys.unit.miss.refillFsmQ = .idle ∧ (s.sys.unit.out i).fsmD ≠ .idle
        then s.waiting.tail else s.waiting) ++
        (s.sys.box.pushed (s.sys.unit.path.taken i.resp)).toList := by
  have hpend : (s.step i).sys.box.pend =
      (if (s.sys.unit.out i).metaR then s.sys.box.pend.tail else s.sys.box.pend) ++
        (s.sys.box.pushed (s.sys.unit.path.taken i.resp)).toList := rfl
  have hfsm : (s.step i).sys.unit.miss.refillFsmQ = (s.sys.unit.out i).fsmD := rfl
  have hne : s.sys.unit.miss.refillFsmQ ≠ .idle → s.sys.box.pend ≠ [] := by
    intro hf hnil
    obtain ⟨r, rest, hp, -⟩ := h.sys.busy hf
    rw [hnil] at hp
    contradiction
  have hrok : s.sys.unit.view.metaRok = true → s.sys.box.pend ≠ [] := by
    intro hr hnil
    obtain ⟨r, rest, hp⟩ := h.sys.pend_of_metaRok hr
    rw [hnil] at hp
    contradiction
  -- a response is taken, or one is being processed: the first one does not wait
  have hskip : (s.sys.unit.out i).metaR = false → (s.sys.unit.out i).fsmD ≠ .idle →
      s.sys.box.pend ≠ [] → (s.step i).waiting =
        s.sys.box.pend.tail ++ (s.sys.box.pushed (s.sys.unit.path.taken i.resp)).toList := by
    intro h1 h2 h3
    rw [waiting, hfsm, if_neg h2, hpend, h1, if_neg Bool.false_ne_true,
      List.tail_append_of_ne_nil h3]
  rcases s.sys.unit.view.refillComb_cases i.miss with ⟨hf, h1, h2⟩ | ⟨hf, hr, -, h1, h2⟩ |
    ⟨hf, hr, -, h1, h2, -⟩ | ⟨hf, -, h1, h2, -⟩ | ⟨hf, -, -, h1, h2⟩ | ⟨hf, h1, h2⟩
  · have hf' : s.sys.unit.miss.refillFsmQ = .idle := hf
    have h1' : (s.sys.unit.out i).metaR = false := h1
    have h2' : (s.sys.unit.out i).fsmD = .idle := h2
    rw [waiting, waiting, hfsm, hpend, h1', h2']
    simp [hf']
  · have hf' : s.sys.unit.miss.refillFsmQ = .idle := hf
    have h2' : (s.sys.unit.out i).fsmD ≠ .idle := by
      intro hx
      have : RefillFsm.inval = .idle := h2.symm.trans hx
      contradiction
    rw [hskip h1 h2' (hrok hr), waiting, if_pos hf', if_pos ⟨hf', h2'⟩]
  · have hf' : s.sys.unit.miss.refillFsmQ = .idle := hf
    have h2' : (s.sys.unit.out i).fsmD ≠ .idle := by
      intro hx
      have : RefillFsm.write = .idle := h2.symm.trans hx
      contradiction
    rw [hskip h1 h2' (hrok hr), waiting, if_pos hf', if_pos ⟨hf', h2'⟩]
  · have hf' : s.sys.unit.miss.refillFsmQ ≠ .idle := by
      intro hx
      have : RefillFsm.write = .idle := hf.symm.trans hx
      contradiction
    have h2' : (s.sys.unit.out i).fsmD ≠ .idle := by
      intro hx
      have : RefillFsm.write = .idle := h2.symm.trans hx
      contradiction
    rw [hskip h1 h2' (hne hf'), waiting, if_neg hf', if_neg fun hx => hf' hx.1]
  · have hf' : s.sys.unit.miss.refillFsmQ ≠ .idle := by
      intro hx
      have : RefillFsm.write = .idle := hf.symm.trans hx
      contradiction
    have h2' : (s.sys.unit.out i).fsmD ≠ .idle := by
      intro hx
      have : RefillFsm.writeDir = .idle := h2.symm.trans hx
      contradiction
    rw [hskip h1 h2' (hne hf'), waiting, if_neg hf', if_neg fun hx => hf' hx.1]
  · have hf' : s.sys.unit.miss.refillFsmQ ≠ .idle := by
      intro hx
      have hx' : s.sys.unit.view.refillFsmQ = .idle := hx
      rcases hf with ⟨hf, -⟩ | hf | hf <;> rw [hx'] at hf <;> contradiction
    have h1' : (s.sys.unit.out i).metaR = true := h1
    have h2' : (s.sys.unit.out i).fsmD = .idle := h2
    rw [waiting, waiting, hfsm, hpend, h1', h2']
    simp [hf']

/-- The response that is completed is the one of the last beat. -/
theorem pushed_cases {r : Resp k.cache}
    (hr : s.sys.box.pushed (s.sys.unit.path.taken i.resp) = some r) (hv : r.isInval = false) :
    ∃ y, i.resp = some y ∧ y.inval = false ∧ y.rLast = true ∧ r.last = y := by
  unfold RespPath.taken at hr
  split_ifs at hr with hready
  · cases hy : i.resp with
    | none => simp [hy, Inbox.pushed] at hr
    | some y =>
      rw [hy] at hr
      simp only [Inbox.pushed, Option.bind_some] at hr
      split_ifs at hr with h1 h2
      · rw [← Option.some.inj hr] at hv
        have : y.inval = false := hv
        rw [h1] at this
        contradiction
      · refine ⟨y, rfl, by simpa using h1, h2, ?_⟩
        rw [← Option.some.inj hr]
  · simp [Inbox.pushed] at hr

/-- Only the first response that waits can lose its miss. -/
theorem Inv.answered_step (h : s.Inv) (hpr : s.Promised i) {r : Resp k.cache}
    (hr : r ∈ (s.step i).waiting) (hv : r.isInval = false) :
    (s.step i).misses r.last.rSet r.last.rWay ≠ none := by
  have hkeep : s.misses r.last.rSet r.last.rWay ≠ none → ¬s.Acks i r.last.rSet r.last.rWay →
      (s.step i).misses r.last.rSet r.last.rWay ≠ none := by
    intro hm hack
    have hstep : (s.step i).misses r.last.rSet r.last.rWay =
        if s.Takes i r.last.rSet r.last.rWay then some (s.asked i)
        else if s.Acks i r.last.rSet r.last.rWay then none
        else s.misses r.last.rSet r.last.rWay := rfl
    rw [hstep, if_neg hack]
    split_ifs
    · exact Option.some_ne_none _
    · exact hm
  rw [waiting_step h, List.mem_append] at hr
  rcases hr with hr | hr
  · have hmem : r ∈ s.waiting := by
      split_ifs at hr
      · exact List.mem_of_mem_tail hr
      · exact hr
    refine hkeep (h.answered r hmem hv) ?_
    rintro ⟨hk, hset, hway⟩
    obtain ⟨r₀, rest, hwait, -, hv₀, hfsm, hset₀, hway₀⟩ := acked h hk
    have hgo : (s.sys.unit.out i).fsmD ≠ .idle := by
      obtain ⟨hf, hrok, hready, hinv⟩ := MissHandler.ack_cases hk
      have hout : (s.sys.unit.out i).fsmD = .write := by
        unfold Refiller.out MissHandler.refillComb MissHandler.refillIdle
        simp [hf, hrok, hready, hinv]
      rw [hout]
      decide
    rw [if_pos ⟨hfsm, hgo⟩, hwait, List.tail_cons] at hr
    have honce := h.once
    rw [hwait, List.pairwise_cons] at honce
    exact honce.1 r hr hv₀ hv ⟨(hset.trans hset₀).symm, (hway.trans hway₀).symm⟩
  · rw [Option.mem_toList] at hr
    obtain ⟨y, hy, hyv, hyl, hlast⟩ := pushed_cases hr hv
    obtain ⟨hm, hother⟩ := hpr.answers y hy hyv hyl
    rw [hlast]
    rw [hlast] at hkeep
    refine hkeep hm ?_
    rintro ⟨hk, hset, hway⟩
    obtain ⟨r₀, rest, hwait, -, hv₀, -, hset₀, hway₀⟩ := acked h hk
    exact hother r₀ (by rw [hwait]; exact List.mem_cons_self) hv₀
      ⟨(hset.trans hset₀).symm, (hway.trans hway₀).symm⟩

theorem Inv.once_step (h : s.Inv) (hpr : s.Promised i) :
    (s.step i).waiting.Pairwise fun r r' => r.isInval = false → r'.isInval = false →
      ¬(r.last.rSet = r'.last.rSet ∧ r.last.rWay = r'.last.rWay) := by
  have hsub : (if s.sys.unit.miss.refillFsmQ = .idle ∧ (s.sys.unit.out i).fsmD ≠ .idle
      then s.waiting.tail else s.waiting).Sublist s.waiting := by
    split_ifs
    · exact List.tail_sublist _
    · exact List.Sublist.refl _
  rw [waiting_step h, List.pairwise_append]
  refine ⟨h.once.sublist hsub, ?_, ?_⟩
  · cases s.sys.box.pushed (s.sys.unit.path.taken i.resp) <;> simp
  · intro r hr r' hr' hv hv' heq
    rw [Option.mem_toList] at hr'
    obtain ⟨y, hy, hyv, hyl, hlast⟩ := pushed_cases hr' hv'
    rw [hlast] at heq
    exact (hpr.answers y hy hyv hyl).2 r (hsub.subset hr) hv heq

/-- **The MSHR and the coalescing buffer hold the misses in flight.** -/
theorem Inv.step (h : s.Inv) (hpr : s.Promised i) : (s.step i).Inv where
  sys := h.sys.step hpr.framed
  held := fun _ _ _ hp => h.held_step hpr hp
  store := fun _ _ _ hp hc => h.store_step hpr hp hc
  apart := fun _ _ _ _ _ _ hp hp' hc hc' heq => h.apart_step hpr hp hp' hc hc' heq
  loading := h.loading_step hpr
  answered := fun _ hr hv => h.answered_step hpr hr hv
  once := h.once_step hpr

theorem inv_run (u : Refiller k) {is : List (RefillIn k)}
    (h : Along Serving.step Promised (start u) is) : (run Serving.step (start u) is).Inv :=
  h.invariant (start_inv u) fun _ _ hs hp => Inv.step hs hp

end

/-! ## The refill of a response -/

/-- A response is processed: the state and the inputs of the grant of the pipeline, the inputs of
the cycles of the refill, the response and the miss that it answers. -/
structure Answered (s : Serving k) (i : RefillIn k) (is : List (RefillIn k)) (r : Resp k.cache)
    (p : Pending k.cache) : Prop where
  idle : s.sys.unit.miss.refillFsmQ = .idle
  head : ∃ rest, s.sys.box.pend = r :: rest
  refill : r.isInval = false
  ready : i.miss.refillReqReady = true
  promised : Along step Promised s (i :: is)
  cycles : is.length = refillCycles k.cache
  miss : s.misses r.last.rSet r.last.rWay = some p

/-- What the refill shows. -/
def evts (s : Serving k) (i : RefillIn k) (is : List (RefillIn k)) : List (RefillEvt k.cache) :=
  (s.sys.step i).evts is

/-- The chunks of the line, each with its bytes. -/
def lineWrites (k : RefillCfg) (p : Pending k.cache) (line : Nat → Byte) :
    List (ChunkWrite k.cache) :=
  (List.range (chunks k.cache)).map fun n =>
    ⟨p.set, p.entry.victimWayIdx, n * k.cache.accessWords,
      units k.cache.accessBytes fun b => mergedLine k p line (n * k.cache.accessBytes + b)⟩

section
variable {s : Serving k} {i : RefillIn k} {is : List (RefillIn k)} {r : Resp k.cache}
  {p : Pending k.cache}

theorem framed_along (h : Along step Promised s is) :
    Along Refilling.step Refilling.Framed s.sys is := by
  induction is generalizing s with
  | nil => trivial
  | cons i is ih => exact ⟨h.1.framed, ih h.2⟩

/-- The MSHR and the coalescing buffer hold the miss of the response. -/
theorem Inv.pendingOf_eq (h : s.Inv) (hm : s.misses r.last.rSet r.last.rWay = some p) :
    (pendingOf s.sys.unit.miss r).set = p.set ∧ (pendingOf s.sys.unit.miss r).entry = p.entry ∧
      (Coalesced p → (pendingOf s.sys.unit.miss r).store = p.store) := by
  obtain ⟨-, hset, hram, -⟩ := h.held _ _ p hm
  refine ⟨hset, hram, ?_⟩
  intro hc
  have hst := (h.store _ _ p hm hc).2
  simp only [pendingOf, hram, hc.1, if_true]
  exact hst

/-- The store counts only where it is coalesced. -/
theorem mergedLine_congr {q : Pending k.cache} {line : Nat → Byte} (he : q.entry = p.entry)
    (hst : Coalesced p → q.store = p.store) : mergedLine k q line = mergedLine k p line := by
  funext a
  unfold mergedLine
  rw [he]
  by_cases hc : Coalesced p
  · rw [hst hc]
  · rw [if_neg fun h => hc ⟨h.1, h.2.1⟩, if_neg fun h => hc ⟨h.1, h.2.1⟩]

/-- The refill acts on the miss that the response answers, with the error of the last beat. -/
theorem Answered.evts_eq (h : Answered s i is r p) (hinv : s.Inv) :
    (evts s i is).filterMap RefillEvt.data =
      (if r.last.rError then [] else lineWrites k p (r.line k)) ∧
      (evts s i is).filterMap RefillEvt.dir =
        [⟨p.set, p.entry.victimWayIdx, refilledEntry p r.last.rError⟩] ∧
      (evts s i is).filterMap RefillEvt.rsp =
        (if p.entry.needRsp then [refilledRsp k p (r.line k) r.last.rError] else []) ∧
      (evts s i is).filterMap RefillEvt.rtab =
        [(⟨p.entry.tag, p.set⟩, r.last.rError)] := by
  obtain ⟨hset, hentry, hstore⟩ := hinv.pendingOf_eq h.miss
  have hrefills : Refilling.Refills s.sys i is r := {
    inv := hinv.sys
    idle := h.idle
    head := h.head
    refill := h.refill
    ready := h.ready
    alloc := h.promised.1.grant h.ready
    framed := framed_along h.promised
    cycles := h.cycles
    word := by
      rw [hentry]
      exact (hinv.held _ _ p h.miss).2.2.2 }
  have hmerged : mergedLine k (pendingOf s.sys.unit.miss r) (r.line k) =
      mergedLine k p (r.line k) := mergedLine_congr hentry hstore
  obtain ⟨hdata, hdir, hrsp, hrtab⟩ := hrefills.evts
  refine ⟨hdata.trans ?_, hdir.trans ?_, hrsp.trans ?_, hrtab.trans ?_⟩
  · rw [hset, hentry, hmerged]
    rfl
  · simp only [refilledEntry, hset, hentry]
  · simp only [refilledRsp, hmerged, hentry]
  · rw [hset, hentry]

end

/-! ## A line of two beats -/

def twoWordCfg : Cfg :=
  Cfg.small true true true false (Cfg.policy_wt true) (Cfg.latency_noEcc true)

theorem one_dvd_clWords : 1 ∣ twoWordCfg.clWords := Nat.one_dvd _

theorem one_dvd_accessWords : 1 ∣ twoWordCfg.accessWords := Nat.one_dvd _

def twoBeatCfg : RefillCfg where
  cache := { twoWordCfg with
    memWords := 1
    memWords_pos := Nat.one_pos
    memWords_dvd := one_dvd_clWords }
  resizable := .inl one_dvd_accessWords

def twoBeat : Refiller twoBeatCfg := ⟨Cache.blankMiss _, ⟨[], Resize.empty⟩⟩

def waitIn : RefillIn twoBeatCfg := { Refilling.fillIn twoBeatCfg with resp := none }

/-- A store of one byte that misses, in write-back mode. -/
def storeIn : RefillIn twoBeatCfg :=
  { waitIn with
    miss := { waitIn.miss with
      alloc := true
      allocCs := true
      allocNeedRsp := true
      allocWback := true
      allocDirty := true
      allocWdata := fun _ => 7
      allocBe := fun b => decide (b = 0) } }

def sentIn : RefillIn twoBeatCfg := { waitIn with miss := { waitIn.miss with memReqReady := true } }

def grantIn : RefillIn twoBeatCfg :=
  { waitIn with miss := { waitIn.miss with refillReqReady := true } }

def beat (err last : Bool) : MemResp twoBeatCfg.cache where
  rError := err
  rSet := ⟨0, by decide⟩
  rWay := ⟨0, by decide⟩
  rLast := last
  rData := fun _ => 1
  inval := false
  invalNline := ⟨0, ⟨0, by decide⟩⟩

def beatIn (err last : Bool) : RefillIn twoBeatCfg := { waitIn with resp := some (beat err last) }

/-- The miss and the two beats of its response, the first one possibly in error. -/
def twoBeatRun (err : Bool) : List (RefillIn twoBeatCfg) :=
  [storeIn, sentIn, beatIn err false, beatIn false true]

def twoBeatResp (err : Bool) : Resp twoBeatCfg.cache := ⟨[beat err false], beat false true⟩

/-- A cycle in which nothing is allocated. -/
theorem promised_of_not_alloc {s : Serving k} {i : RefillIn k} (halloc : i.miss.alloc = false)
    (hframed : s.sys.Framed i)
    (hanswers : ∀ y, i.resp = some y → y.inval = false → y.rLast = true →
      s.misses y.rSet y.rWay ≠ none ∧
        ∀ r ∈ s.waiting, r.isInval = false → ¬(r.last.rSet = y.rSet ∧ r.last.rWay = y.rWay)) :
    s.Promised i := by
  have hno : i.miss.alloc ≠ true := Bool.eq_false_iff.1 halloc
  exact ⟨hframed, fun h => absurd h hno, fun h => absurd h hno, fun h => absurd h hno,
    fun h => absurd h hno, fun _ => halloc, hanswers⟩

/-- A cycle in which nothing is answered either. -/
theorem promised_wait {s : Serving k} {i : RefillIn k} (hresp : i.resp = none)
    (halloc : i.miss.alloc = false) : s.Promised i := by
  apply promised_of_not_alloc halloc
  · intro y hy
    rw [hresp] at hy
    contradiction
  · intro y hy
    rw [hresp] at hy
    contradiction

theorem twoBeat_promised (err : Bool) :
    Along step Promised (start twoBeat) (twoBeatRun err) := by
  refine ⟨⟨?_, ?_, ?_, ?_, ?_, ?_, ?_⟩, promised_wait rfl rfl, promised_of_not_alloc rfl ?_ ?_,
    promised_of_not_alloc rfl ?_ ?_, trivial⟩
  · exact nofun
  · exact fun _ => rfl
  · exact fun _ => ⟨⟨0, by decide⟩, rfl⟩
  · exact fun _ _ _ => by decide +kernel
  · exact fun _ => by decide
  · exact nofun
  · exact nofun
  · intro y hy _
    rw [← Option.some.inj hy]
    exact ⟨nofun, nofun⟩
  · intro y hy _ hl
    rw [← Option.some.inj hy] at hl
    contradiction
  · intro y hy _
    rw [← Option.some.inj hy]
    exact ⟨fun _ => by cases err <;> decide +kernel, fun _ => rfl⟩
  · intro y hy _ _
    rw [← Option.some.inj hy]
    exact ⟨nofun, nofun⟩

theorem twoBeat_answered (err : Bool) :
    Answered (run step (start twoBeat) (twoBeatRun err)) grantIn [waitIn, waitIn, waitIn]
      (twoBeatResp err) ((start twoBeat).asked storeIn) where
  idle := by cases err <;> decide +kernel
  head := ⟨[], rfl⟩
  refill := rfl
  ready := rfl
  promised := by
    refine ⟨promised_wait rfl rfl, promised_wait rfl rfl, promised_wait rfl rfl,
      promised_wait rfl rfl, trivial⟩
  cycles := by decide
  miss := rfl

/-! ## The error of a response -/

/-- Some beat of the response is in error. -/
def anyError {c : Cfg} (r : Resp c) : Bool := r.beats.any MemResp.rError

/-- The error of the last beat is that of the response. -/
theorem lastError_eq {c : Cfg} {r : Resp c} (h : anyError r = true → r.last.rError = true) :
    r.last.rError = anyError r := by
  cases hl : r.last.rError with
  | true =>
    have hany : anyError r = true :=
      List.any_eq_true.2 ⟨r.last, List.mem_append_right _ List.mem_cons_self, hl⟩
    exact hany.symm
  | false =>
    cases hany : anyError r with
    | false => rfl
    | true =>
      rw [h hany] at hl
      contradiction

/-- The line is that of the memory with the store merged, its word is answered once and its entry is
written once. With an error nothing becomes valid and an error is answered. -/
structure Refilled (p : Pending k.cache) (r : Resp k.cache) (evs : List (RefillEvt k.cache)) :
    Prop where
  line : anyError r = false → evs.filterMap RefillEvt.data = lineWrites k p (r.line k)
  rsp : evs.filterMap RefillEvt.rsp =
    if p.entry.needRsp then [refilledRsp k p (r.line k) (anyError r)] else []
  dir : evs.filterMap RefillEvt.dir =
    [⟨p.set, p.entry.victimWayIdx, refilledEntry p (anyError r)⟩]

/-- **Refill of a line.** It is right when the last beat is in error if any is. -/
theorem refilled_iff (u : Refiller k) {is₀ is : List (RefillIn k)} {i : RefillIn k}
    {r : Resp k.cache} {p : Pending k.cache} (h₀ : Along step Promised (start u) is₀)
    (h : Answered (run step (start u) is₀) i is r p) :
    Refilled p r (evts (run step (start u) is₀) i is) ↔
      (anyError r = true → r.last.rError = true) := by
  obtain ⟨hdata, hdir, hrsp, -⟩ := h.evts_eq (inv_run u h₀)
  constructor
  · intro hr hany
    have heq := hdir.symm.trans hr.dir
    have hvalid : (refilledEntry p r.last.rError).valid = (refilledEntry p (anyError r)).valid := by
      injection heq with heq
      injection heq with _ _ heq
      rw [heq]
    rw [hany] at hvalid
    simpa [refilledEntry] using hvalid
  · intro hlast
    have herr := lastError_eq hlast
    refine ⟨?_, ?_, ?_⟩
    · intro hno
      rw [hdata, herr, hno]
      rfl
    · rw [hrsp, herr]
    · rw [hdir, herr]

/-- A line of two beats with no error. -/
theorem refilled_twoBeat :
    Refilled ((start twoBeat).asked storeIn) (twoBeatResp false)
      (evts (run step (start twoBeat) (twoBeatRun false)) grantIn [waitIn, waitIn, waitIn]) :=
  (refilled_iff twoBeat (twoBeat_promised false) (twoBeat_answered false)).2 nofun

/-- The error of the first beat is lost: the line is valid and no error is answered. -/
theorem firstBeat_not_refilled :
    Along step Promised (start twoBeat) (twoBeatRun true) ∧
      Answered (run step (start twoBeat) (twoBeatRun true)) grantIn [waitIn, waitIn, waitIn]
        (twoBeatResp true) ((start twoBeat).asked storeIn) ∧
      ¬ Refilled ((start twoBeat).asked storeIn) (twoBeatResp true)
        (evts (run step (start twoBeat) (twoBeatRun true)) grantIn [waitIn, waitIn, waitIn]) := by
  refine ⟨twoBeat_promised true, twoBeat_answered true, ?_⟩
  intro h
  obtain ⟨-, hdir, -⟩ := (twoBeat_answered true).evts_eq (inv_run twoBeat (twoBeat_promised true))
  have heq := congrArg (List.map fun d => d.entry.valid) (hdir.symm.trans h.dir)
  contradiction

/-! ## The request on hold -/

/-- The request is replayed as an error, whatever happens before its commit. -/
def ReplaysError {c : Cfg} (t : Rtab c) (e : Fin c.rtabEntries) : Prop :=
  ∀ tis, Along Rtab.step (fun _ ti => Rtab.commitBv ti e = false) t tis →
    (run Rtab.step t tis).popSel e = true → (run Rtab.step t tis).popTryReq.isError = true

theorem replaysError_of_errorQ {c : Cfg} {t : Rtab c} {e : Fin c.rtabEntries}
    (h : t.errorQ e = true) : ReplaysError t e := by
  intro tis hal hsel
  have hstep : ∀ (t : Rtab c) (ti : RtabIn c), t.errorQ e = true → Rtab.commitBv ti e = false →
      (t.step ti).errorQ e = true := by
    intro t ti ht hc
    simp only [Rtab.step, ht, hc]
    exact setRst_true_left _ _
  have herr : (fun t : Rtab c => t.errorQ e = true) (run Rtab.step t tis) := hal.invariant h hstep
  have herr : (run Rtab.step t tis).errorQ e = true := herr
  simp only [Rtab.popTryReq, any_eq_true]
  exact ⟨e, by rw [hsel, herr]; rfl⟩

/-- What the replay table does of a line and an error: the write that waits for the miss is replayed
as an error, or nothing changes. -/
def Told {c : Cfg} (p : Pending c) (err : Bool) (x : Nline c × Bool) : Prop :=
  ∀ (t : Rtab c) (ti : RtabIn c) (e : Fin c.rtabEntries),
    ti.refill = true → ti.refillNline = x.1 → ti.refillIsError = x.2 →
    t.validQ e = true → (t.depsQ e).writeMiss = true → t.nline e = ⟨p.entry.tag, p.set⟩ →
    Rtab.commitBv ti e = false →
    (err = true → ReplaysError (t.step ti) e) ∧
      (err = false → (t.step ti).errorQ e = t.errorQ e)

theorem told {c : Cfg} (p : Pending c) (err : Bool) :
    Told p err (⟨p.entry.tag, p.set⟩, err) := by
  intro t ti e hrefill hnline herr hv hdep hline hc
  have hset : t.errorSet ti e = err := by
    simp [Rtab.errorSet, hv, hdep, hnline, hline, hrefill, herr]
  have hq : (t.step ti).errorQ e = setRst (t.errorQ e) err false := by
    simp only [Rtab.step, hset, hc]
  refine ⟨?_, ?_⟩
  · intro he
    apply replaysError_of_errorQ
    rw [hq, he]
    cases t.errorQ e <;> rfl
  · intro he
    rw [hq, he]
    cases t.errorQ e <;> rfl

/-- An error in a beat leaves the line invalid, is answered to the core, and is that of the write
that waits for the miss. With no error there is none of these. -/
structure Aggregated (p : Pending k.cache) (r : Resp k.cache) (evs : List (RefillEvt k.cache)) :
    Prop where
  dir : (evs.filterMap RefillEvt.dir).map (fun d => (d.set, d.way, d.entry.valid)) =
    [(p.set, p.entry.victimWayIdx, !anyError r)]
  rsp : (evs.filterMap RefillEvt.rsp).map RefillRsp.error =
    if p.entry.needRsp then [anyError r] else []
  rtab : ∃ x, evs.filterMap RefillEvt.rtab = [x] ∧ Told p (anyError r) x

/-- **Errors of a refill.** They are aggregated when the last beat is in error if any is. -/
theorem aggregated_iff (u : Refiller k) {is₀ is : List (RefillIn k)} {i : RefillIn k}
    {r : Resp k.cache} {p : Pending k.cache} (h₀ : Along step Promised (start u) is₀)
    (h : Answered (run step (start u) is₀) i is r p) :
    Aggregated p r (evts (run step (start u) is₀) i is) ↔
      (anyError r = true → r.last.rError = true) := by
  obtain ⟨-, hdir, hrsp, hrtab⟩ := h.evts_eq (inv_run u h₀)
  constructor
  · intro ha hany
    have heq := ha.dir
    rw [hdir, hany] at heq
    simpa [refilledEntry] using heq
  · intro hlast
    have herr := lastError_eq hlast
    refine ⟨?_, ?_, ?_⟩
    · rw [hdir, herr]
      rfl
    · rw [hrsp, herr]
      split_ifs <;> rfl
    · exact ⟨_, hrtab, herr ▸ told p r.last.rError⟩

/-- A line of two beats with no error. -/
theorem aggregated_twoBeat :
    Aggregated ((start twoBeat).asked storeIn) (twoBeatResp false)
      (evts (run step (start twoBeat) (twoBeatRun false)) grantIn [waitIn, waitIn, waitIn]) :=
  (aggregated_iff twoBeat (twoBeat_promised false) (twoBeat_answered false)).2 nofun

/-- The error of the first beat is one of nothing. -/
theorem firstBeat_not_aggregated :
    Along step Promised (start twoBeat) (twoBeatRun true) ∧
      Answered (run step (start twoBeat) (twoBeatRun true)) grantIn [waitIn, waitIn, waitIn]
        (twoBeatResp true) ((start twoBeat).asked storeIn) ∧
      ¬ Aggregated ((start twoBeat).asked storeIn) (twoBeatResp true)
        (evts (run step (start twoBeat) (twoBeatRun true)) grantIn [waitIn, waitIn, waitIn]) := by
  refine ⟨twoBeat_promised true, twoBeat_answered true, ?_⟩
  intro h
  obtain ⟨-, hdir, -⟩ := (twoBeat_answered true).evts_eq (inv_run twoBeat (twoBeat_promised true))
  have heq := h.dir
  rw [hdir] at heq
  contradiction

end Serving

end Hpdcache
