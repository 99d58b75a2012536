import Hpdcache.Isolation
import Hpdcache.RefillOutcome
import Hpdcache.Traffic

/-!
# The misses in flight as a finite map

The MSHR and the coalescing buffer stand for a map from the identifiers of the transactions to what
the misses were allocated with. The map is kept beside the cache, and compared with the two tables.

**The tables.** The validity and the cache set of an entry are registers. The rest of it is in a RAM
with one port, so what a check or an acknowledge reads is there in the cycle after it. A store is in
the coalescing buffer, under an index that the entry holds.

**Requirements.** The memory answers each miss once. A miss is allocated with room for it
(`MissMap.Fits`): so it is in regular runs, but not when a request shows another attribute at its
lookup than in stage 1.

* `MissMap.step` — one cycle of the cache, and of the map.
* `MissMap.Inv` — the tables hold the map.
* `MissMap.mapped_run` — the allocations, the checks and the acknowledges of a run are those of the
map.
-/

namespace Hpdcache

open Hw
open Refilling (Pending)

/-- The miss has a store in the coalescing buffer. -/
def Refilling.Pending.coalesced {c : Cfg} (p : Pending c) : Bool := c.wbEn && p.entry.dirty

def Refilling.Pending.nline {c : Cfg} (p : Pending c) : Nline c := ⟨p.entry.tag, p.set⟩

/-- The cache, the misses in flight, the miss acknowledged and the set checked in the last cycle. -/
structure MissMap (c : Cfg) where
  cache : Cache c
  live : Fin c.mshrSets → Fin c.mshrWays → Option (Pending c)
  acked : Option (Pending c)
  checked : Option (Fin c.sets)

namespace MissMap

variable {c : Cfg}

def start (u : Cache c) : MissMap c := ⟨u.reset, fun _ _ => none, none, none⟩

variable (s : MissMap c) (i : CacheIn c)

/-- The requests on the MSHR in the cycle. -/
def mshrIn : MshrIn c := s.cache.miss.mshrIn (s.cache.missIn i)

/-- The miss of an allocation. -/
def asked : Pending c where
  set := s.cache.st2.mshrAllocNlineQ.set
  entry := (s.mshrIn i).allocEntry
  store := ⟨s.cache.st2.mshrAllocWdataQ, s.cache.st2.mshrAllocBeQ⟩

/-- The allocation takes the entry. -/
def Takes (a : Fin c.mshrSets) (b : Fin c.mshrWays) : Prop :=
  (s.mshrIn i).alloc = true ∧ a = Mshr.setOf s.cache.st2.mshrAllocNlineQ ∧
    b = s.cache.miss.mshr.allocWay s.cache.st2.mshrAllocNlineQ

/-- The refill takes the miss of the entry. -/
def Acks (a : Fin c.mshrSets) (b : Fin c.mshrWays) : Prop :=
  (s.mshrIn i).ack = true ∧ a = s.cache.miss.head.rSet ∧ b = s.cache.miss.head.rWay

instance (a : Fin c.mshrSets) (b : Fin c.mshrWays) : Decidable (s.Takes i a b) :=
  inferInstanceAs (Decidable (_ ∧ _))

instance (a : Fin c.mshrSets) (b : Fin c.mshrWays) : Decidable (s.Acks i a b) :=
  inferInstanceAs (Decidable (_ ∧ _))

def step : MissMap c where
  cache := s.cache.step i
  live := fun a b =>
    if s.Takes i a b then some (s.asked i) else if s.Acks i a b then none else s.live a b
  acked :=
    if (s.mshrIn i).ack then s.live s.cache.miss.head.rSet s.cache.miss.head.rWay else none
  checked := if (s.mshrIn i).check then some (s.mshrIn i).checkSet else none

/-- The entry of the coalescing buffer that the cycle frees. -/
def freed : Option (Fin c.cbufEntries) :=
  if c.wbEn && (s.cache.refill i).dirty && s.cache.miss.refillLoad then
    some s.cache.miss.mshr.ackEntry.cbufId
  else none

/-- The memory answers a miss in flight that it has not answered. -/
def Answers : Prop :=
  ∀ r, i.missResp = some r → r.isInval = false → s.live r.rSet r.rWay ≠ none ∧
    ∀ r' ∈ s.cache.miss.unacked, ¬(r'.rSet = r.rSet ∧ r'.rWay = r.rWay)

/-- A miss that is allocated is alone in the pipeline, and finds a free way in its set of the MSHR
and, with a store, a free entry in the coalescing buffer. -/
structure Fits (s : MissMap c) : Prop where
  normal : s.cache.st2.mshrAllocQ = true → s.cache.miss.allocReady = true →
    s.cache.normal = true ∧ s.cache.st1.reqValidQ = false
  way : s.cache.st2.mshrAllocQ = true → s.cache.miss.allocReady = true →
    ∃ w, s.cache.miss.mshr.validQ (Mshr.setOf s.cache.st2.mshrAllocNlineQ) w = false
  cbuf : s.cache.st2.mshrAllocQ = true → s.cache.miss.allocReady = true → c.wbEn = true →
    s.cache.st2.mshrAllocDirtyQ = true → s.cache.miss.cbuf.allocFull = false

/-- A miss that holds an entry of the coalescing buffer: in flight, or acknowledged in the last
cycle. -/
def Holds (k : Fin c.cbufEntries) (p : Pending c) : Prop :=
  p.coalesced = true ∧ p.entry.cbufId = k ∧ ((∃ a b, s.live a b = some p) ∨ s.acked = some p)

instance : Decidable (s.Answers i) :=
  decidable_of_iff (∀ r ∈ i.missResp, r.isInval = false → (s.live r.rSet r.rWay).isSome = true ∧
    ∀ r' ∈ s.cache.miss.unacked, ¬(r'.rSet = r.rSet ∧ r'.rWay = r.rWay))
    (by simp only [Answers, Option.mem_def, Option.isSome_iff_ne_none])

/-- An allocation overwrites no miss in flight. -/
def Places : Prop := ∀ a b, s.Takes i a b → s.live a b = none

instance : Decidable (s.Places i) := inferInstanceAs (Decidable (∀ _ _, _ → _))

/-- The tables are those of the map. -/
structure Mapped (s : MissMap c) : Prop where
  valid : ∀ a b, s.cache.miss.mshr.validQ a b = (s.live a b).isSome
  /-- A check hits a line in flight. -/
  hit : ∀ set, s.checked = some set → ∀ tag, s.cache.miss.mshr.hit tag = true ↔
    ∃ a b p, s.live a b = some p ∧ p.nline = ⟨tag, set⟩
  /-- An acknowledge of a miss in flight gives what it was allocated with. -/
  ack : ∀ i a b, s.Acks i a b → s.live a b ≠ none
  acked : ∀ p, s.acked = some p → s.cache.miss.mshr.ackEntry = p.entry ∧
    s.cache.miss.ackCacheSet = p.set ∧ (p.coalesced = true → s.cache.miss.ackCbufEntry = p.store)
  /-- An entry of the coalescing buffer is held by one miss, and freed after the acknowledge of
  it. -/
  cbuf : ∀ k, s.cache.miss.cbuf.validQ k = true ↔ ∃ p, s.Holds k p
  once : ∀ k a b p a' b' p', s.live a b = some p → p.coalesced = true → p.entry.cbufId = k →
    s.live a' b' = some p' → p'.coalesced = true → p'.entry.cbufId = k → a = a' ∧ b = b'
  other : ∀ a b p q, s.live a b = some p → p.coalesced = true → s.acked = some q →
    q.coalesced = true → p.entry.cbufId ≠ q.entry.cbufId
  freed : ∀ i k, s.freed i = some k ↔
    ∃ p, s.acked = some p ∧ p.coalesced = true ∧ p.entry.cbufId = k

/-- The MSHR and the coalescing buffer hold the misses in flight. -/
structure Inv (s : MissMap c) : Prop where
  busy : s.cache.miss.Busy
  valid : ∀ a b, s.cache.miss.mshr.validQ a b = (s.live a b).isSome
  held : ∀ a b p, s.live a b = some p → s.cache.miss.mshr.cacheSetQ a b = p.set ∧
    s.cache.miss.mshr.ram a b = p.entry ∧ mshrSetOf c p.set = a
  store : ∀ a b p, s.live a b = some p → p.coalesced = true →
    s.cache.miss.cbuf.validQ p.entry.cbufId = true ∧
      s.cache.miss.cbuf.entriesQ p.entry.cbufId = p.store
  apart : ∀ a b p a' b' p', s.live a b = some p → s.live a' b' = some p' →
    p.coalesced = true → p'.coalesced = true → p.entry.cbufId = p'.entry.cbufId → a = a' ∧ b = b'
  loads : s.cache.miss.refillLoad = s.acked.isSome
  read : ∀ p, s.acked = some p → s.cache.miss.mshr.ackEntry = p.entry ∧
    s.cache.miss.ackCacheSet = p.set
  /-- The store of the miss acknowledged is freed in this cycle, and is no other's. -/
  loading : ∀ p, s.acked = some p → p.coalesced = true →
    s.cache.miss.cbuf.validQ p.entry.cbufId = true ∧
      s.cache.miss.cbuf.entriesQ p.entry.cbufId = p.store ∧
      ∀ a b q, s.live a b = some q → q.coalesced = true → q.entry.cbufId ≠ p.entry.cbufId
  owned : ∀ k, s.cache.miss.cbuf.validQ k = true → ∃ p, s.Holds k p
  checked : ∀ set, s.checked = some set → s.cache.miss.mshr.checkCacheSetQ = set ∧
    ∀ w, s.cache.miss.mshr.rentry w = s.cache.miss.mshr.ram (mshrSetOf c set) w
  answered : ∀ r ∈ s.cache.miss.unacked, s.live r.rSet r.rWay ≠ none
  distinct : s.cache.miss.unacked.Pairwise fun r r' => ¬(r.rSet = r'.rSet ∧ r.rWay = r'.rWay)

/-! ## What a cycle does to the map -/

section
variable {s : MissMap c} {i : CacheIn c} {a a' : Fin c.mshrSets} {b b' : Fin c.mshrWays}
  {p p' : Pending c} {k : Fin c.cbufEntries}

theorem inv_start (u : Cache c) : (start u).Inv where
  busy := MissHandler.busy_reset _
  valid := fun _ _ => rfl
  held := nofun
  store := nofun
  apart := nofun
  loads := rfl
  read := nofun
  loading := nofun
  owned := nofun
  checked := nofun
  answered := nofun
  distinct := List.Pairwise.nil

theorem mshr_step : (s.step i).cache.miss.mshr = s.cache.miss.mshr.step (s.mshrIn i) := rfl

theorem alloc_eq : (s.mshrIn i).alloc = (s.cache.miss.allocReady && s.cache.st2.mshrAllocQ) := rfl

/-- Nothing is acknowledged in the cycle of an allocation. -/
theorem not_ack (h : (s.mshrIn i).alloc = true) : (s.mshrIn i).ack = false :=
  Cache.not_ack (Bool.and_eq_true_iff.1 h).2

theorem not_alloc (h : (s.mshrIn i).ack = true) : (s.mshrIn i).alloc = false := by
  rw [alloc_eq, Cache.ack_not_alloc h, Bool.and_false]

/-- A check is made when a request enters the pipeline, and has the MSHR for itself. -/
theorem not_check (h : (s.mshrIn i).check = true) :
    (s.mshrIn i).alloc = false ∧ (s.mshrIn i).ack = false := by
  have hcheck : (hpdcacheCtrlPe c (s.cache.peIn i)).st0ReqMshrCheck = true := h
  have hg : (s.cache.peIn i).GrantCore c ∨ (s.cache.peIn i).GrantRtab c ∨
      (s.cache.peIn i).GrantScrub c := by
    rw [← coreReqReady_iff, ← rtabReqReady_iff, ← scrubReqReady_iff]
    cases hn : (s.cache.peIn i).normal with
    | false =>
      obtain ⟨evt, he⟩ := hpdcacheCtrlPe_not_normal (c := c) hn
      rw [he] at hcheck
      contradiction
    | true =>
      rw [hpdcacheCtrlPe_normal hn] at hcheck ⊢
      simp only [newRequest, Bool.and_eq_true, Bool.or_eq_true] at hcheck ⊢
      rcases hcheck.1.1.1 with (hc | hr) | hs
      · exact .inl hc
      · exact .inr (.inl hr)
      · exact .inr (.inr hs)
  obtain ⟨hnop, hrefill⟩ : (s.cache.peIn i).noNop c = true ∧
      s.cache.miss.refillReqValid = false := by
    rcases hg with hg | hg | hg
    · exact ⟨hg.noNop, hg.not_refill⟩
    · exact ⟨hg.noNop, hg.not_refill⟩
    · exact ⟨hg.noNop, hg.not_refill⟩
  have hst2 : s.cache.st2Busy = false := PeIn.noNop_st2 hnop
  simp only [Cache.st2Busy, Bool.or_eq_false_iff] at hst2
  constructor
  · rw [alloc_eq, hst2.1.1, Bool.and_false]
  · by_contra hk
    obtain ⟨hf, hrok, -, -⟩ := MissHandler.ack_cases (eq_true_of_ne_false hk)
    simp [MissHandler.refillReqValid, hf, hrok] at hrefill

/-- The entry of an allocation is written in the RAM. -/
theorem Fits.allocCs (hf : s.Fits) (h : (s.mshrIn i).alloc = true) :
    (s.mshrIn i).allocCs = true := by
  obtain ⟨hready, ha⟩ := Bool.and_eq_true_iff.1 h
  obtain ⟨hn, hv⟩ := hf.normal ha hready
  have hagree := hpdcacheCtrlPe_agrees_idle (c := c) (i := s.cache.peIn i) hn hv
  have hcs : (s.cache.pe i).st2MshrAlloc.cs = true := by
    rw [show (s.cache.pe i).st2MshrAlloc = _ from hagree.mshrAlloc, Decision.mshrAlloc_cs]
    exact ha
  exact Bool.and_eq_true_iff.2 ⟨hready, hcs⟩

/-- A miss in flight was so or is allocated. -/
theorem live_step (h : (s.step i).live a b = some p) :
    (s.Takes i a b ∧ p = s.asked i) ∨
      (¬ s.Takes i a b ∧ ¬ s.Acks i a b ∧ s.live a b = some p) := by
  have hstep : (s.step i).live a b = if s.Takes i a b then some (s.asked i)
    else if s.Acks i a b then none else s.live a b := rfl
  rw [hstep] at h
  split_ifs at h with h1 h2
  · exact .inl ⟨h1, (Option.some.inj h).symm⟩
  · exact .inr ⟨h1, h2, h⟩

/-- The miss acknowledged was in flight. -/
theorem acked_step (h : (s.step i).acked = some p) :
    (s.mshrIn i).ack = true ∧
      s.live s.cache.miss.head.rSet s.cache.miss.head.rWay = some p := by
  have hstep : (s.step i).acked = if (s.mshrIn i).ack then
    s.live s.cache.miss.head.rSet s.cache.miss.head.rWay else none := rfl
  rw [hstep] at h
  split_ifs at h with hk
  exact ⟨hk, h⟩

theorem Inv.not_live (h : s.Inv) (hf : s.Fits) (ht : s.Takes i a b) : s.live a b = none := by
  obtain ⟨ha, rfl, rfl⟩ := ht
  obtain ⟨hready, ha⟩ := Bool.and_eq_true_iff.1 ha
  have hv := Mshr.allocWay_free (hf.way ha hready)
  rw [h.valid] at hv
  simpa using hv

/-- An acknowledge is for a miss in flight. -/
theorem Inv.live_of_ack (h : s.Inv) (hk : (s.mshrIn i).ack = true) :
    s.live s.cache.miss.head.rSet s.cache.miss.head.rWay ≠ none := by
  apply h.answered
  rw [MissHandler.unacked_of_ack (i := s.cache.missIn i) hk]
  exact List.mem_cons_self

theorem Inv.valid_step (h : s.Inv) (hf : s.Fits) :
    (s.step i).cache.miss.mshr.validQ a b = ((s.step i).live a b).isSome := by
  have hstep : (s.step i).cache.miss.mshr.validQ a b = setRst (s.cache.miss.mshr.validQ a b)
    ((s.mshrIn i).alloc && decide (a = Mshr.setOf s.cache.st2.mshrAllocNlineQ ∧
      b = s.cache.miss.mshr.allocWay s.cache.st2.mshrAllocNlineQ))
    ((s.mshrIn i).ack && decide (a = s.cache.miss.head.rSet ∧ b = s.cache.miss.head.rWay)) := rfl
  have hlive : (s.step i).live a b = if s.Takes i a b then some (s.asked i)
    else if s.Acks i a b then none else s.live a b := rfl
  rw [hstep, hlive]
  by_cases ht : s.Takes i a b
  · have hnone := h.not_live hf ht
    have hset : ((s.mshrIn i).alloc && decide (a = Mshr.setOf s.cache.st2.mshrAllocNlineQ ∧
        b = s.cache.miss.mshr.allocWay s.cache.st2.mshrAllocNlineQ)) = true :=
      Bool.and_eq_true_iff.2 ⟨ht.1, decide_eq_true ht.2⟩
    rw [if_pos ht, h.valid, hnone, hset]
    rfl
  · have hset : ((s.mshrIn i).alloc && decide (a = Mshr.setOf s.cache.st2.mshrAllocNlineQ ∧
        b = s.cache.miss.mshr.allocWay s.cache.st2.mshrAllocNlineQ)) = false := by
      by_contra hne
      rw [Bool.not_eq_false, Bool.and_eq_true, decide_eq_true_eq] at hne
      exact ht hne
    rw [if_neg ht, hset, h.valid]
    by_cases hk : s.Acks i a b
    · have hrst : ((s.mshrIn i).ack && decide (a = s.cache.miss.head.rSet ∧
          b = s.cache.miss.head.rWay)) = true :=
        Bool.and_eq_true_iff.2 ⟨hk.1, decide_eq_true hk.2⟩
      rw [if_pos hk, hrst]
      cases (s.live a b).isSome <;> rfl
    · have hrst : ((s.mshrIn i).ack && decide (a = s.cache.miss.head.rSet ∧
          b = s.cache.miss.head.rWay)) = false := by
        by_contra hne
        rw [Bool.not_eq_false, Bool.and_eq_true, decide_eq_true_eq] at hne
        exact hk hne
      rw [if_neg hk, hrst, setRst_idle]

theorem Inv.held_step (h : s.Inv) (hf : s.Fits) (hp : (s.step i).live a b = some p) :
    (s.step i).cache.miss.mshr.cacheSetQ a b = p.set ∧
      (s.step i).cache.miss.mshr.ram a b = p.entry ∧ mshrSetOf c p.set = a := by
  rw [mshr_step]
  rcases live_step hp with ⟨⟨halloc, rfl, rfl⟩, rfl⟩ | ⟨htake, hack, hold⟩
  · obtain ⟨hready, ha⟩ := Bool.and_eq_true_iff.1 halloc
    obtain ⟨-, hset, hram⟩ := Mshr.alloc_step (hf.allocCs halloc) halloc (not_ack halloc)
      (hf.way ha hready)
    exact ⟨hset, hram, rfl⟩
  · obtain ⟨hset, hram, hidx⟩ := h.held a b p hold
    have hv : s.cache.miss.mshr.validQ a b = true := by
      rw [h.valid, hold]
      rfl
    obtain ⟨-, hset', hram'⟩ := Mshr.entry_step (i := s.mshrIn i) hv
      (fun hk hab => hack ⟨hk, hab⟩) not_ack (fun ha hab => htake ⟨ha, hab⟩)
    exact ⟨hset'.trans hset, hram'.trans hram, hidx⟩

/-! ## The coalescing buffer -/

/-- An entry of the coalescing buffer is taken. -/
def cbufAlloc (s : MissMap c) (i : CacheIn c) : Bool :=
  c.wbEn && s.cache.st2.mshrAllocDirtyQ && (s.mshrIn i).alloc

/-- The entry of the miss acknowledged in the last cycle is freed. -/
def cbufAck (s : MissMap c) : Bool := s.acked.any Pending.coalesced

theorem cbufAlloc_eq : s.cbufAlloc i = ((s.asked i).coalesced && (s.mshrIn i).alloc) := rfl

theorem Inv.frees (h : s.Inv) :
    (c.wbEn && (s.cache.refill i).dirty && s.cache.miss.refillLoad) = s.cbufAck := by
  unfold cbufAck
  cases hp : s.acked with
  | none =>
    rw [h.loads, hp]
    exact Bool.and_false _
  | some p =>
    have hload : s.cache.miss.refillLoad = true := by rw [h.loads, hp]; rfl
    have hdirty : (s.cache.refill i).dirty = p.entry.dirty := by
      rw [← (h.read p hp).1]
      exact MissHandler.dirty_of_load hload
    rw [hload, hdirty, Bool.and_true]
    rfl

theorem Inv.cbuf_step (h : s.Inv) : (s.step i).cache.miss.cbuf =
    s.cache.miss.cbuf.step (s.cbufAlloc i) (s.asked i).store s.cbufAck
      s.cache.miss.mshr.ackEntry.cbufId := by
  rw [← h.frees (i := i)]
  rfl

theorem Fits.free (hf : s.Fits) (h : s.cbufAlloc i = true) :
    s.cache.miss.cbuf.validQ s.cache.miss.cbuf.allocId = false := by
  simp only [cbufAlloc, Bool.and_eq_true] at h
  obtain ⟨hready, ha⟩ := Bool.and_eq_true_iff.1 h.2
  exact Serving.allocId_free (hf.cbuf ha hready h.1.1 h.1.2)

/-- The entry freed is that of the miss acknowledged. -/
theorem Inv.of_cbufAck (h : s.Inv) (hk : s.cbufAck = true) : ∃ p, s.acked = some p ∧
    p.coalesced = true ∧ s.cache.miss.mshr.ackEntry.cbufId = p.entry.cbufId := by
  unfold cbufAck at hk
  cases hp : s.acked with
  | none =>
    rw [hp] at hk
    contradiction
  | some p =>
    rw [hp] at hk
    exact ⟨p, rfl, hk, by rw [(h.read p hp).1]⟩

/-- The store of a miss in flight is not the one that is freed. -/
theorem Inv.not_freed (h : s.Inv) (hm : s.live a b = some p) (hc : p.coalesced = true)
    (hk : s.cbufAck = true) : p.entry.cbufId ≠ s.cache.miss.mshr.ackEntry.cbufId := by
  obtain ⟨q, hq, hcq, hid⟩ := h.of_cbufAck hk
  rw [hid]
  exact (h.loading q hq hcq).2.2 a b p hm hc

/-- An entry that is not freed stays. -/
theorem Inv.cbuf_keep (h : s.Inv) (hf : s.Fits) (hv : s.cache.miss.cbuf.validQ k = true)
    (hack : s.cbufAck = true → k ≠ s.cache.miss.mshr.ackEntry.cbufId) :
    (s.step i).cache.miss.cbuf.validQ k = true ∧
      (s.step i).cache.miss.cbuf.entriesQ k = s.cache.miss.cbuf.entriesQ k := by
  rw [h.cbuf_step]
  refine ⟨?_, ?_⟩
  · have hno : (s.cbufAck && decide (k = s.cache.miss.mshr.ackEntry.cbufId)) = false := by
      rw [Bool.and_eq_false_iff, decide_eq_false_iff_not]
      by_cases hx : s.cbufAck = true
      · exact .inr (hack hx)
      · exact .inl (Bool.eq_false_iff.2 hx)
    simp only [Cbuf.step, hv, hno, Bool.not_false, Bool.and_true, Bool.or_true]
  · apply if_neg
    rintro ⟨ha, rfl⟩
    rw [hf.free ha] at hv
    contradiction

theorem Inv.store_step (h : s.Inv) (hf : s.Fits) (hp : (s.step i).live a b = some p)
    (hc : p.coalesced = true) : (s.step i).cache.miss.cbuf.validQ p.entry.cbufId = true ∧
      (s.step i).cache.miss.cbuf.entriesQ p.entry.cbufId = p.store := by
  rcases live_step hp with ⟨⟨halloc, -, -⟩, rfl⟩ | ⟨-, -, hold⟩
  · have ha : s.cbufAlloc i = true := by rw [cbufAlloc_eq, hc, halloc]; rfl
    have hid : (s.asked i).entry.cbufId = s.cache.miss.cbuf.allocId := rfl
    rw [h.cbuf_step, hid]
    simp [Cbuf.step, ha]
  · obtain ⟨hv, he⟩ := h.store a b p hold hc
    obtain ⟨hv', he'⟩ := h.cbuf_keep (i := i) hf hv (h.not_freed hold hc)
    exact ⟨hv', he'.trans he⟩

/-- The store of an allocation is not in the buffer yet. -/
theorem Inv.asked_apart (h : s.Inv) (hf : s.Fits) (halloc : (s.mshrIn i).alloc = true)
    (hc : (s.asked i).coalesced = true) (hm : s.live a b = some p) (hcp : p.coalesced = true) :
    p.entry.cbufId ≠ (s.asked i).entry.cbufId := by
  intro heq
  have ha : s.cbufAlloc i = true := by rw [cbufAlloc_eq, hc, halloc]; rfl
  have hv := (h.store a b p hm hcp).1
  have hid : (s.asked i).entry.cbufId = s.cache.miss.cbuf.allocId := rfl
  rw [heq, hid, hf.free ha] at hv
  contradiction

theorem Inv.apart_step (h : s.Inv) (hf : s.Fits) (hp : (s.step i).live a b = some p)
    (hp' : (s.step i).live a' b' = some p') (hc : p.coalesced = true)
    (hc' : p'.coalesced = true) (heq : p.entry.cbufId = p'.entry.cbufId) : a = a' ∧ b = b' := by
  rcases live_step hp with ⟨⟨halloc, rfl, rfl⟩, rfl⟩ | ⟨-, -, hold⟩
  · rcases live_step hp' with ⟨⟨-, rfl, rfl⟩, -⟩ | ⟨-, -, hold'⟩
    · exact ⟨rfl, rfl⟩
    · exact absurd heq.symm (h.asked_apart hf halloc hc hold' hc')
  · rcases live_step hp' with ⟨⟨halloc, -, -⟩, rfl⟩ | ⟨-, -, hold'⟩
    · exact absurd heq (h.asked_apart hf halloc hc' hold hc)
    · exact h.apart a b p a' b' p' hold hold' hc hc' heq

/-! ## The acknowledge -/

theorem Inv.loads_step (h : s.Inv) :
    (s.step i).cache.miss.refillLoad = (s.step i).acked.isSome := by
  have hstep : (s.step i).acked = if (s.mshrIn i).ack then
    s.live s.cache.miss.head.rSet s.cache.miss.head.rWay else none := rfl
  rw [hstep]
  cases hk : (s.mshrIn i).ack with
  | false =>
    rw [if_neg Bool.false_ne_true]
    by_contra hl
    have hack : (s.mshrIn i).ack = true :=
      (MissHandler.ack_of_load (m := s.cache.miss) (i := s.cache.missIn i)
        (eq_true_of_ne_false hl)).1
    rw [hk] at hack
    contradiction
  | true =>
    obtain ⟨-, -, hfsm, hcnt⟩ := MissHandler.ack_step (m := s.cache.miss) hk (Cache.ack_not_alloc hk)
    rw [if_pos rfl, Option.isSome_iff_ne_none.2 (h.live_of_ack hk)]
    exact decide_eq_true ⟨hfsm, hcnt⟩

theorem Inv.read_step (h : s.Inv) (hp : (s.step i).acked = some p) :
    (s.step i).cache.miss.mshr.ackEntry = p.entry ∧
      (s.step i).cache.miss.ackCacheSet = p.set := by
  obtain ⟨hk, hlive⟩ := acked_step hp
  obtain ⟨hset, hram, -⟩ := h.held _ _ p hlive
  obtain ⟨hentry, hcache, -⟩ := MissHandler.ack_step (m := s.cache.miss) hk (Cache.ack_not_alloc hk)
  exact ⟨Eq.trans hentry hram, Eq.trans hcache hset⟩

/-- Nothing is freed in the cycle of an acknowledge. -/
theorem Inv.not_cbufAck (h : s.Inv) (hk : (s.mshrIn i).ack = true) : s.cbufAck ≠ true := by
  intro hx
  obtain ⟨p, hp, -⟩ := h.of_cbufAck hx
  have hload : s.cache.miss.refillLoad = true := by rw [h.loads, hp]; rfl
  have hf := (MissHandler.ack_cases hk).1
  simp [MissHandler.refillLoad, hf] at hload

theorem Inv.loading_step (h : s.Inv) (hf : s.Fits) (hp : (s.step i).acked = some p)
    (hc : p.coalesced = true) : (s.step i).cache.miss.cbuf.validQ p.entry.cbufId = true ∧
      (s.step i).cache.miss.cbuf.entriesQ p.entry.cbufId = p.store ∧
      ∀ a b q, (s.step i).live a b = some q → q.coalesced = true →
        q.entry.cbufId ≠ p.entry.cbufId := by
  obtain ⟨hk, hlive⟩ := acked_step hp
  obtain ⟨hv, he⟩ := h.store _ _ p hlive hc
  obtain ⟨hv', he'⟩ := h.cbuf_keep (i := i) hf hv fun hx => absurd hx (h.not_cbufAck hk)
  refine ⟨hv', he'.trans he, ?_⟩
  intro a b q hq hcq heq
  rcases live_step hq with ⟨⟨ha, -, -⟩, -⟩ | ⟨-, hack, hold⟩
  · rw [not_alloc hk] at ha
    contradiction
  · obtain ⟨ha, hb⟩ := h.apart a b q _ _ p hold hlive hcq hc heq
    exact hack ⟨hk, ha, hb⟩

theorem Inv.owned_step (h : s.Inv) (hf : s.Fits)
    (hv : (s.step i).cache.miss.cbuf.validQ k = true) : ∃ p, (s.step i).Holds k p := by
  rw [h.cbuf_step] at hv
  have hv' : (s.cbufAlloc i && decide (k = s.cache.miss.cbuf.allocId) ||
    s.cache.miss.cbuf.validQ k && !(s.cbufAck &&
      decide (k = s.cache.miss.mshr.ackEntry.cbufId))) = true := hv
  rw [Bool.or_eq_true, Bool.and_eq_true, Bool.and_eq_true, decide_eq_true_eq] at hv'
  rcases hv' with ⟨ha, rfl⟩ | ⟨hold, hno⟩
  · rw [cbufAlloc_eq, Bool.and_eq_true] at ha
    have htake : s.Takes i _ _ := ⟨ha.2, rfl, rfl⟩
    exact ⟨s.asked i, ha.1, rfl, .inl ⟨_, _, if_pos htake⟩⟩
  · obtain ⟨p, hc, hid, hplace⟩ := h.owned k hold
    rcases hplace with ⟨a, b, hlive⟩ | hacked
    · have ht : ¬ s.Takes i a b := by
        intro ht
        rw [h.not_live hf ht] at hlive
        contradiction
      by_cases hk : s.Acks i a b
      · refine ⟨p, hc, hid, .inr ?_⟩
        obtain ⟨hack, rfl, rfl⟩ := hk
        exact (if_pos hack).trans hlive
      · refine ⟨p, hc, hid, .inl ⟨a, b, ?_⟩⟩
        exact (if_neg ht).trans ((if_neg hk).trans hlive)
    · have hack : s.cbufAck = true := by
        rw [cbufAck, hacked]
        exact hc
      rw [hack, (h.read p hacked).1, hid, decide_eq_true rfl] at hno
      contradiction

/-! ## The check -/

theorem checked_step {set : Fin c.sets} (h : (s.step i).checked = some set) :
    (s.mshrIn i).check = true ∧ (s.mshrIn i).checkSet = set := by
  have hstep : (s.step i).checked =
    if (s.mshrIn i).check then some (s.mshrIn i).checkSet else none := rfl
  rw [hstep] at h
  split_ifs at h with hc
  exact ⟨hc, Option.some.inj h⟩

/-- The entries of the set checked are read. -/
theorem read_of_check {set : Fin c.sets} (h : (s.step i).checked = some set) :
    (s.step i).cache.miss.mshr.checkCacheSetQ = set ∧
      ∀ w, (s.step i).cache.miss.mshr.rentry w =
        (s.step i).cache.miss.mshr.ram (mshrSetOf c set) w := by
  obtain ⟨hc, hset⟩ := checked_step h
  obtain ⟨halloc, hack⟩ := not_check hc
  rw [mshr_step]
  constructor
  · simp [Mshr.step, hc, halloc, hset]
  · intro w
    simp [Mshr.step, Mshr.cs, Mshr.addr, hc, halloc, hack, hset]

/-- What the check says is whether the line is in flight. -/
theorem Inv.hit_iff (h : s.Inv) {set : Fin c.sets} (hc : s.checked = some set) (tag : Nat) :
    s.cache.miss.mshr.hit tag = true ↔ ∃ a b p, s.live a b = some p ∧ p.nline = ⟨tag, set⟩ := by
  obtain ⟨hset, hread⟩ := h.checked set hc
  rw [Mshr.hit, any_eq_true]
  constructor
  · rintro ⟨w, hw⟩
    simp only [Mshr.hitWay, hset, Bool.and_eq_true, decide_eq_true_eq] at hw
    obtain ⟨⟨hv, htag⟩, hcache⟩ := hw
    rw [h.valid] at hv
    obtain ⟨p, hp⟩ := Option.isSome_iff_exists.1 hv
    obtain ⟨hps, hram, -⟩ := h.held _ _ p hp
    refine ⟨_, _, p, hp, ?_⟩
    rw [Pending.nline, ← hps, hcache, ← hram, ← hread w, htag]
  · rintro ⟨a, b, p, hp, hn⟩
    obtain ⟨hps, hram, hidx⟩ := h.held a b p hp
    have htag : p.entry.tag = tag := congrArg Nline.tag hn
    have hpset : p.set = set := congrArg Nline.set hn
    have ha : mshrSetOf c set = a := by rw [← hpset, hidx]
    have hv : s.cache.miss.mshr.validQ a b = true := by
      rw [h.valid, hp]
      rfl
    refine ⟨b, ?_⟩
    simp only [Mshr.hitWay, hset, Bool.and_eq_true, decide_eq_true_eq]
    rw [ha]
    exact ⟨⟨hv, by rw [hread b, ha, hram, htag]⟩, hps.trans hpset⟩

/-! ## The responses -/

theorem Inv.mem_unacked_step (h : s.Inv) {r : MissResp c}
    (hr : r ∈ (s.step i).cache.miss.unacked) :
    (r ∈ (if (s.mshrIn i).ack then s.cache.miss.unacked.tail else s.cache.miss.unacked)) ∨
      i.missResp = some r ∧ r.isInval = false := by
  have hstep : (s.step i).cache.miss.unacked =
      (if (s.mshrIn i).ack then s.cache.miss.unacked.tail else s.cache.miss.unacked) ++
        ((if s.cache.miss.memRespReady then i.missResp else none).toList.filter
          fun r => !r.isInval) := MissHandler.unacked_step h.busy
  rw [hstep, List.mem_append, List.mem_filter, Option.mem_toList] at hr
  refine hr.imp id fun hnew => ?_
  obtain ⟨hin, hv⟩ := hnew
  split_ifs at hin
  · exact ⟨hin, by simpa using hv⟩

/-- A miss stays in flight until its acknowledge. -/
theorem Inv.live_keep (h : s.Inv) (hf : s.Fits) (hlive : s.live a b ≠ none)
    (hk : ¬ s.Acks i a b) : (s.step i).live a b ≠ none := by
  have hstep : (s.step i).live a b = if s.Takes i a b then some (s.asked i)
    else if s.Acks i a b then none else s.live a b := rfl
  have ht : ¬ s.Takes i a b := fun ht => hlive (h.not_live hf ht)
  rwa [hstep, if_neg ht, if_neg hk]

/-- Only the first response that waits can lose its miss. -/
theorem Inv.answered_step (h : s.Inv) (hf : s.Fits) (hans : s.Answers i) {r : MissResp c}
    (hr : r ∈ (s.step i).cache.miss.unacked) : (s.step i).live r.rSet r.rWay ≠ none := by
  rcases h.mem_unacked_step hr with hold | ⟨hin, hv⟩
  · have hmem : r ∈ s.cache.miss.unacked := by
      split_ifs at hold
      · exact List.mem_of_mem_tail hold
      · exact hold
    apply h.live_keep hf (h.answered r hmem)
    rintro ⟨hk, hset, hway⟩
    have hcons := MissHandler.unacked_of_ack (i := s.cache.missIn i) hk
    have hdis := h.distinct
    rw [hcons, List.pairwise_cons] at hdis
    rw [if_pos hk] at hold
    exact hdis.1 r hold ⟨hset.symm, hway.symm⟩
  · obtain ⟨hlive, hnew⟩ := hans r hin hv
    apply h.live_keep hf hlive
    rintro ⟨hk, hset, hway⟩
    have hmem : s.cache.miss.head ∈ s.cache.miss.unacked := by
      rw [MissHandler.unacked_of_ack (i := s.cache.missIn i) hk]
      exact List.mem_cons_self
    exact hnew _ hmem ⟨hset.symm, hway.symm⟩

theorem Inv.distinct_step (h : s.Inv) (hans : s.Answers i) :
    (s.step i).cache.miss.unacked.Pairwise fun r r' => ¬(r.rSet = r'.rSet ∧ r.rWay = r'.rWay) := by
  have hstep : (s.step i).cache.miss.unacked =
      (if (s.mshrIn i).ack then s.cache.miss.unacked.tail else s.cache.miss.unacked) ++
        ((if s.cache.miss.memRespReady then i.missResp else none).toList.filter
          fun r => !r.isInval) := MissHandler.unacked_step h.busy
  have hsub : (if (s.mshrIn i).ack then s.cache.miss.unacked.tail
      else s.cache.miss.unacked).Sublist s.cache.miss.unacked := by
    split_ifs
    · exact List.tail_sublist _
    · exact List.Sublist.refl _
  rw [hstep, List.pairwise_append]
  refine ⟨h.distinct.sublist hsub, ?_, ?_⟩
  · apply List.Pairwise.filter
    cases (if s.cache.miss.memRespReady then i.missResp else none) <;> simp
  · intro r hr r' hr'
    rw [List.mem_filter, Option.mem_toList] at hr'
    obtain ⟨hin, hv⟩ := hr'
    split_ifs at hin
    · exact (hans r' hin (by simpa using hv)).2 r (hsub.subset hr)

/-! ## Runs -/

/-- **The tables hold the map.** -/
theorem Inv.step (h : s.Inv) (hf : s.Fits) (hans : s.Answers i) : (s.step i).Inv where
  busy := MissHandler.Busy.step h.busy
  valid := fun _ _ => h.valid_step hf
  held := fun _ _ _ hp => h.held_step hf hp
  store := fun _ _ _ hp hc => h.store_step hf hp hc
  apart := fun _ _ _ _ _ _ hp hp' hc hc' heq => h.apart_step hf hp hp' hc hc' heq
  loads := h.loads_step
  read := fun _ hp => h.read_step hp
  loading := fun _ hp hc => h.loading_step hf hp hc
  owned := fun _ hv => h.owned_step hf hv
  checked := fun _ hc => read_of_check hc
  answered := fun _ hr => h.answered_step hf hans hr
  distinct := h.distinct_step hans

theorem Inv.ackCbufEntry (h : s.Inv) (hp : s.acked = some p) (hc : p.coalesced = true) :
    s.cache.miss.ackCbufEntry = p.store := by
  have hwb : c.wbEn = true := (Bool.and_eq_true_iff.1 hc).1
  rw [MissHandler.ackCbufEntry, if_pos hwb, (h.read p hp).1]
  exact (h.loading p hp hc).2.1

theorem Inv.freed_iff (h : s.Inv) : s.freed i = some k ↔
    ∃ p, s.acked = some p ∧ p.coalesced = true ∧ p.entry.cbufId = k := by
  rw [freed, h.frees]
  constructor
  · intro hk
    split_ifs at hk with hack
    obtain ⟨p, hp, hc, hid⟩ := h.of_cbufAck hack
    exact ⟨p, hp, hc, hid.symm.trans (Option.some.inj hk)⟩
  · rintro ⟨p, hp, hc, rfl⟩
    have hack : s.cbufAck = true := by
      rw [cbufAck, hp]
      exact hc
    rw [if_pos hack, (h.read p hp).1]

theorem Inv.mapped (h : s.Inv) : s.Mapped where
  valid := h.valid
  hit := fun _ hc tag => h.hit_iff hc tag
  ack := by
    rintro i a b ⟨hk, rfl, rfl⟩
    exact h.live_of_ack hk
  acked := fun p hp => ⟨(h.read p hp).1, (h.read p hp).2, h.ackCbufEntry hp⟩
  cbuf := by
    intro k
    refine ⟨h.owned k, ?_⟩
    rintro ⟨p, hc, rfl, ⟨a, b, hp⟩ | hp⟩
    · exact (h.store a b p hp hc).1
    · exact (h.loading p hp hc).1
  once := fun k a b p a' b' p' hp hc hid hp' hc' hid' =>
    h.apart a b p a' b' p' hp hp' hc hc' (hid.trans hid'.symm)
  other := fun a b p q hp hc hq hcq => (h.loading q hq hcq).2.2 a b p hp hc
  freed := fun _ _ => h.freed_iff

end

theorem inv_run (u : Cache c) {is : List (CacheIn c)}
    (h : Along step (fun s i => s.Answers i ∧ s.Fits) (start u) is) :
    (run step (start u) is).Inv :=
  h.invariant (inv_start u) fun _ _ hs hp => hs.step hp.2 hp.1

theorem places_run {is : List (CacheIn c)} {s : MissMap c} (hs : s.Inv)
    (h : Along step (fun s i => s.Answers i ∧ s.Fits) s is) : Along step Places s is := by
  induction is generalizing s with
  | nil => exact trivial
  | cons i is ih =>
    obtain ⟨⟨hans, hf⟩, hrest⟩ := h
    exact ⟨fun _ _ ht => hs.not_live hf ht, ih (hs.step hf hans) hrest⟩

/-- In every run in which the memory answers each miss once, and a miss is allocated with room for
it, no allocation overwrites a miss in flight, and the MSHR and the coalescing buffer are those of
the map in every state. -/
theorem mapped_run (u : Cache c) (is : List (CacheIn c))
    (hans : Along step Answers (start u) is)
    (hf : Along step (fun s _ => s.Fits) (start u) is) :
    Along step Places (start u) is ∧ (run step (start u) is).Mapped :=
  ⟨places_run (inv_start u) (hans.and hf), (inv_run u (hans.and hf)).mapped⟩

end MissMap

/-! ## Regular runs -/

namespace Cache

variable {s : Cache c} {i : CacheIn c}

/-- A store registered for stage 2 finds a free entry of the coalescing buffer. -/
def Stores (s : Cache c) : Prop :=
  s.st2.mshrAllocQ = true → c.wbEn = true → s.st2.mshrAllocDirtyQ = true →
    s.miss.cbuf.allocFull = false

/-- An entry is taken by the miss of stage 2 only. -/
theorem allocFull_step (h : s.miss.cbuf.allocFull = false) (hst2 : s.st2.mshrAllocQ = false) :
    (s.step i).miss.cbuf.allocFull = false := by
  obtain ⟨k, hk⟩ := all_eq_false.1 h
  apply all_eq_false.2
  refine ⟨k, ?_⟩
  have hno : (s.missIn i).alloc = false := hst2
  show (s.miss.step (s.missIn i)).cbuf.validQ k = false
  simp [MissHandler.step, Cbuf.step, hno, hk]

theorem Stores.step (h : s.Owned) : (s.step i).Stores := by
  intro ha hwb hd
  have hpe := (h.pe_agrees (i := i)).mshrAlloc
  have hstep : (s.step i).st2.mshrAllocQ = (s.pe i).st2MshrAlloc.alloc := rfl
  rw [hstep, hpe, Decision.mshrAlloc_alloc] at ha
  have hm := misses_of_dec ha
  have hst2 := h.st1_st2 hm.sound.valid
  simp only [st2Busy, Bool.or_eq_false_iff] at hst2
  refine allocFull_step ?_ hst2.1.1
  have hreg : (s.step i).st2.mshrAllocDirtyQ = ((s.dec i).mshrAlloc (s.peIn i)).dirty := by
    have hload : (s.step i).st2.mshrAllocDirtyQ =
      if (s.pe i).st2MshrAlloc.alloc then (s.pe i).st2MshrAlloc.dirty
      else s.st2.mshrAllocDirtyQ := rfl
    rw [hload, hpe, Decision.mshrAlloc_alloc, if_pos ha]
  rw [hreg] at hd
  have hg := dec_guard (s := s) (i := i)
  cases hdec : s.dec i <;> rw [hdec] at ha hd hg <;> try contradiction
  obtain ⟨-, -, -, -, hfull⟩ := hg
  have hfull : (c.wbEn && s.miss.cbuf.allocFull) = false := hfull
  rwa [hwb, Bool.true_and] at hfull

/-- In a regular run a miss is allocated with room for it. -/
theorem Inv.fits {s : MissMap c} (h : s.cache.Inv) (hs : s.cache.Stores) : s.Fits where
  normal ha _ := by
    have hb : s.cache.st2Busy = true := by simp [st2Busy, ha]
    refine ⟨h.owned.st2_normal hb, ?_⟩
    by_contra hv
    rw [h.owned.st1_st2 (eq_true_of_ne_false hv)] at hb
    contradiction
  way ha _ := (h.roomy ha).2
  cbuf ha _ := hs ha

end Cache

theorem MissMap.fits_regular {is : List (CacheIn c)} {s : MissMap c} (h : s.cache.Inv)
    (hs : s.cache.Stores) (hr : Along Cache.step Cache.Regular s.cache is) :
    Along MissMap.step (fun s _ => s.Fits) s is := by
  induction is generalizing s with
  | nil => exact trivial
  | cons i is ih => exact ⟨h.fits hs, ih (h.step hr.1) (Cache.Stores.step h.owned) hr.2⟩

/-! ## A store and its refill, and two misses in the same entry -/

namespace MissMap

instance (s : MissMap c) : Decidable s.Fits :=
  decidable_of_iff
    ((s.cache.st2.mshrAllocQ = true → s.cache.miss.allocReady = true →
        s.cache.normal = true ∧ s.cache.st1.reqValidQ = false) ∧
      (s.cache.st2.mshrAllocQ = true → s.cache.miss.allocReady = true →
        ∃ w, s.cache.miss.mshr.validQ (Mshr.setOf s.cache.st2.mshrAllocNlineQ) w = false) ∧
      (s.cache.st2.mshrAllocQ = true → s.cache.miss.allocReady = true → c.wbEn = true →
        s.cache.st2.mshrAllocDirtyQ = true → s.cache.miss.cbuf.allocFull = false))
    ⟨fun h => ⟨h.1, h.2.1, h.2.2⟩, fun h => ⟨h.normal, h.way, h.cbuf⟩⟩

/-- A write-back store misses, and the memory gives its line. -/
def storeThenRefill : List (CacheIn lowLatencyCfg) :=
  [.idle _, .idle _, .ask storeWb, .idle _, .idle _, .idle _, .refill, .idle _]

theorem mapped_storeThenRefill :
    Along step Places (start (Cache.blank lowLatencyCfg)) storeThenRefill ∧
      (run step (start (Cache.blank lowLatencyCfg)) storeThenRefill).Mapped :=
  mapped_run _ _ (by decide +kernel) (by decide +kernel)

/-- The second miss was looked up as if it were uncacheable, and takes the entry of the first one.
-/
theorem twoMisses_not_placed :
    Along step Answers (start (Cache.blank oneWayCfg))
        (Traffic.twoMisses.map TrafficIn.cacheIn) ∧
      ¬ Along step Places (start (Cache.blank oneWayCfg))
        (Traffic.twoMisses.map TrafficIn.cacheIn) := by
  constructor
  · decide +kernel
  · decide +kernel

end MissMap

end Hpdcache
