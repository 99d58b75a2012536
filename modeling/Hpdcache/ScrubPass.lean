import Hpdcache.Scrubbing
import Mathlib.Data.Nat.ModEq
import Mathlib.Data.List.Nodup

/-!
# The passes of the scrubber

A pass goes from the cycle that leaves the idle state, or that starts again, to the cycle that the
scrubber takes for the last one. The set and the chunk advance together at each read, so a pass is a
walk along a diagonal: it reads the pairs `(k % sets, k % chunks)`.

* `Scrub.Diagonal.step` — one cycle stays on the diagonal, and reads the next pair at most.
* `Scrub.Pass.trace_eq` — a pass without waits reads the diagonal and reports nothing; with waits
  it reports its end and has not read the last pair.
* `Scrub.Pass.covers_iff` — all the pairs are read once when the numbers of sets and of chunks are
  coprime and the pass ends on a read.
* `Scrub.Pass.not_exact` — no pass reads every pair and reports its end.
-/

namespace Hpdcache

open Hw

variable {c : Cfg}

/-- What is seen of the scrubber. -/
inductive ScrubObs (c : Cfg)
  | request (set : Fin c.sets) (chunk : Nat)
  | complete
  deriving DecidableEq

namespace Scrub

/-- The read that is granted in the cycle, and the event. -/
def obs (s : Scrub c) (i : ScrubIn) : List (ScrubObs c) :=
  (if s.reqValid && i.ready then [.request s.setQ s.chunkQ] else []) ++
    (if s.evtComplete i then [.complete] else [])

/-- The cycle is the last one of a pass: the last access is granted, or its turn comes after a
wait. -/
def completes (s : Scrub c) (i : ScrubIn) : Bool :=
  i.cfgEnable && s.lastAccess &&
    match s.fsmQ with
    | .idle => false
    | .check => i.ready
    | .wait => decide (s.waitQ = period i)

/-- The cycle starts a pass, from the idle state or after another one. -/
def starts (s : Scrub c) (i : ScrubIn) : Bool :=
  match s.fsmQ with
  | .idle => i.cfgEnable
  | _ => s.completes i && i.cfgRestart

/-- The cycle goes on with the pass. -/
structure Goes (s : Scrub c) (i : ScrubIn) : Prop where
  not_completes : s.completes i = false
  not_idle : (s.step i).fsmQ ≠ .idle

/-- A pass, from the cycle that starts it to the one that completes it. -/
structure Pass (c : Cfg) where
  before : Scrub c
  first : ScrubIn
  inputs : List ScrubIn
  last : ScrubIn
  enabled : c.eccScrubberEn = true
  starts : before.starts first = true
  goes : Along step Goes (before.step first) inputs
  completes : (run step (before.step first) inputs).completes last = true

/-- The requests and the events of a pass. -/
def Pass.trace (p : Pass c) : List (ScrubObs c) :=
  Hw.trace step obs (p.before.step p.first) (p.inputs ++ [p.last])

/-- Every pair is requested once. -/
def Covers (t : List (ScrubObs c)) : Prop :=
  ∀ set chunk, chunk < chunks c → t.count (.request set chunk) = 1

/-- Every pair is requested once, and the event is raised once, after all the requests. -/
structure Exact (t : List (ScrubObs c)) : Prop where
  covers : Covers t
  once : t.count .complete = 1
  after : ∀ l r, t = l ++ .complete :: r → Covers l

/-! ## The diagonal -/

theorem chunks_pos : 0 < chunks c :=
  Nat.div_pos (Nat.le_of_dvd c.clWords_pos c.accessWords_dvd) c.accessWords_pos

/-- The request of rank `k` of a pass. -/
def diag (c : Cfg) (k : Nat) : ScrubObs c :=
  .request ⟨k % c.sets, Nat.mod_lt k c.sets_pos⟩ (k % chunks c)

/-- The length of the diagonal. -/
def turns (c : Cfg) : Nat := Nat.lcm c.sets (chunks c)

theorem turns_pos : 0 < turns c :=
  Nat.lcm_pos c.sets_pos chunks_pos

/-- Two pairs of the diagonal are the same only a number of turns apart. -/
theorem dvd_of_diag_eq {j k : Nat} (hjk : j ≤ k) (h : diag c j = diag c k) :
    turns c ∣ k - j := by
  rw [diag, diag, ScrubObs.request.injEq, Fin.mk.injEq] at h
  exact Nat.lcm_dvd ((Nat.modEq_iff_dvd' hjk).1 h.1) ((Nat.modEq_iff_dvd' hjk).1 h.2)

theorem diag_inj {j k : Nat} (hj : j < turns c) (hk : k < turns c) (h : diag c j = diag c k) :
    j = k := by
  have hle : ∀ {j k : Nat}, j ≤ k → k < turns c → diag c j = diag c k → j = k := by
    intro j k hjk hk h
    have hz := Nat.eq_zero_of_dvd_of_lt (dvd_of_diag_eq hjk h) (by omega)
    omega
  obtain hjk | hkj := Nat.le_total j k
  · exact hle hjk hk h
  · exact (hle hkj hj h.symm).symm

/-- The pairs of the diagonal are distinct. -/
theorem nodup_diag {n : Nat} (hn : n ≤ turns c) : ((List.range n).map (diag c)).Nodup := by
  refine List.Nodup.map_on ?_ List.nodup_range
  intro j hj k hk h
  rw [List.mem_range] at hj hk
  exact diag_inj (Nat.lt_of_lt_of_le hj hn) (Nat.lt_of_lt_of_le hk hn) h

variable {s : Scrub c} {i : ScrubIn} {is : List ScrubIn} {k n : Nat}

/-- A counter is at its last value exactly when its successor is a number of turns. -/
theorem mod_last_iff (hn : 0 < n) : k % n + 1 = n ↔ n ∣ k + 1 := by
  have hlt := Nat.mod_lt k hn
  rw [Nat.dvd_iff_mod_eq_zero, ← Nat.mod_add_mod]
  constructor
  · intro h
    rw [h, Nat.mod_self]
  · intro h
    by_contra hne
    rw [Nat.mod_eq_of_lt (by omega)] at h
    omega

/-- The counters are on the diagonal. -/
structure Diagonal (s : Scrub c) (k : Nat) : Prop where
  not_idle : s.fsmQ ≠ .idle
  set : s.setQ.val = k % c.sets
  chunk : s.chunkQ = k % chunks c
  lt : k < turns c

theorem Diagonal.pair (h : s.Diagonal k) : ScrubObs.request s.setQ s.chunkQ = diag c k := by
  rw [diag, ScrubObs.request.injEq]
  exact ⟨Fin.ext h.set, h.chunk⟩

/-- The last access is the last pair of the diagonal. -/
theorem Diagonal.lastAccess_iff (h : s.Diagonal k) : s.lastAccess = true ↔ k + 1 = turns c := by
  rw [lastAccess, Bool.and_eq_true, lastSet, lastChunk, decide_eq_true_eq, decide_eq_true_eq, h.set,
    h.chunk, mod_last_iff c.sets_pos, mod_last_iff chunks_pos]
  constructor
  · intro ⟨hs, hc⟩
    have hle := Nat.le_of_dvd (Nat.succ_pos k) (Nat.lcm_dvd hs hc)
    have hlt := h.lt
    rw [turns] at *
    omega
  · intro hk
    rw [hk]
    exact ⟨Nat.dvd_lcm_left _ _, Nat.dvd_lcm_right _ _⟩

/-- The event is raised by the cycle that completes a pass after a wait. -/
theorem evtComplete_eq :
    s.evtComplete i = (c.eccScrubberEn && decide (s.fsmQ = .wait) && s.completes i) := by
  unfold evtComplete completes
  cases hf : s.fsmQ with
  | idle => simp
  | check => simp
  | wait =>
    simp only [decide_true, Bool.and_true]
    ac_rfl

theorem obs_eq_nil (hr : s.fsmQ = .check → i.ready = false) (hc : s.completes i = false) :
    s.obs i = [] := by
  have hreq : (s.reqValid && i.ready) = false := by
    by_cases hf : s.fsmQ = .check
    · rw [hr hf, Bool.and_false]
    · simp [reqValid, hf]
  rw [obs, hreq, evtComplete_eq, hc, Bool.and_false]
  rfl

theorem obs_of_check (hc : c.eccScrubberEn = true) (hf : s.fsmQ = .check)
    (hr : i.ready = true) : s.obs i = [.request s.setQ s.chunkQ] := by
  simp [obs, reqValid, evtComplete, hc, hf, hr]

/-- A pass starts at the first pair. -/
theorem diagonal_of_starts (h : s.starts i = true) : (s.step i).Diagonal 0 := by
  have hstep : (s.step i).fsmQ = .check ∧ (s.step i).setQ = ⟨0, c.sets_pos⟩ ∧
      (s.step i).chunkQ = 0 := by
    unfold starts at h
    unfold step
    cases hf : s.fsmQ with
    | idle =>
      simp only [hf] at h
      simp [h]
    | check =>
      simp only [hf, completes, Bool.and_eq_true] at h
      obtain ⟨⟨⟨hen, hlast⟩, hr⟩, hre⟩ := h
      simp [hr, checkStep, hen, hlast, restart, hre]
    | wait =>
      simp only [hf, completes, Bool.and_eq_true, decide_eq_true_eq] at h
      obtain ⟨⟨⟨hen, hlast⟩, hw⟩, hre⟩ := h
      simp [hw, waitStep, hen, hlast, restart, hre]
  obtain ⟨hf, hs, hk⟩ := hstep
  refine ⟨?_, ?_, ?_, turns_pos⟩
  · rw [hf]
    simp
  · rw [hs, Nat.zero_mod]
  · rw [hk, Nat.zero_mod]

/-- A read that is granted before the last one moves both counters by one. -/
theorem Diagonal.checkStep (h : s.Diagonal k) (hn : s.lastAccess = false)
    (he : i.cfgEnable = true) : (s.checkStep i).Diagonal (k + 1) := by
  have hset : (s.checkStep i).setQ.val = (k + 1) % c.sets := by
    have hval : (s.checkStep i).setQ.val = if s.lastSet then 0 else (s.setQ.val + 1) % c.sets := by
      unfold Scrub.checkStep
      simp only [he, hn, Bool.not_true, Bool.false_eq_true, if_false]
      split_ifs <;> rfl
    rw [hval, ← Nat.mod_add_mod k, ← h.set]
    by_cases hl : s.lastSet = true
    · rw [if_pos hl, of_decide_eq_true hl, Nat.mod_self]
    · rw [if_neg hl]
  have hchunk : (s.checkStep i).chunkQ = (k + 1) % chunks c := by
    have hval : (s.checkStep i).chunkQ = if s.lastChunk then 0 else s.chunkQ + 1 := by
      unfold Scrub.checkStep
      simp only [he, hn, Bool.not_true, Bool.false_eq_true, if_false]
      split_ifs <;> rfl
    rw [hval, ← Nat.mod_add_mod k, ← h.chunk]
    by_cases hl : s.lastChunk = true
    · rw [if_pos hl, of_decide_eq_true hl, Nat.mod_self]
    · have hlt := Nat.mod_lt k (chunks_pos (c := c))
      have hne : s.chunkQ + 1 ≠ chunks c := fun hcq => hl (decide_eq_true hcq)
      rw [if_neg hl, Nat.mod_eq_of_lt (by rw [h.chunk] at hne ⊢; omega)]
  have hidle : (s.checkStep i).fsmQ ≠ .idle := by
    have hval : (s.checkStep i).fsmQ = if period i ≠ 0 then .wait else s.fsmQ := by
      unfold Scrub.checkStep
      simp only [he, hn, Bool.not_true, Bool.false_eq_true, if_false]
      split_ifs <;> rfl
    rw [hval]
    split_ifs
    · simp
    · exact h.not_idle
  refine ⟨hidle, hset, hchunk, ?_⟩
  have hlt := h.lt
  have hlast : k + 1 ≠ turns c := by
    intro hk
    rw [h.lastAccess_iff.2 hk] at hn
    contradiction
  omega

/-- A cycle of a pass requests nothing, or the next pair of the diagonal. -/
theorem Diagonal.step (hc : c.eccScrubberEn = true) (h : s.Diagonal k) (hg : s.Goes i) :
    (s.obs i = [] ∧ (s.step i).Diagonal k) ∨
      (s.obs i = [diag c k] ∧ (s.step i).Diagonal (k + 1)) := by
  have hno := hg.not_completes
  have hen : s.fsmQ = .check → i.ready = true → i.cfgEnable = true := by
    intro hf hr
    by_contra he
    exact hg.not_idle (by simp [Scrub.step, hf, hr, Scrub.checkStep, he])
  cases hf : s.fsmQ with
  | idle => exact absurd hf h.not_idle
  | check =>
    cases hr : i.ready with
    | false =>
      have hstep : s.step i = s := by simp [Scrub.step, hf, hr]
      rw [hstep]
      exact Or.inl ⟨obs_eq_nil (fun _ => hr) hno, h⟩
    | true =>
      have he := hen hf hr
      have hstep : s.step i = s.checkStep i := by simp [Scrub.step, hf, hr]
      have hlast : s.lastAccess = false := by simpa [completes, hf, hr, he] using hno
      rw [hstep, obs_of_check hc hf hr, h.pair]
      exact Or.inr ⟨rfl, h.checkStep hlast he⟩
  | wait =>
    have hobs : s.obs i = [] := obs_eq_nil (by simp [hf]) hno
    have hstep : (s.step i).setQ = s.setQ ∧ (s.step i).chunkQ = s.chunkQ := by
      have hlast : s.waitQ = period i → i.cfgEnable = true → s.lastAccess = false := by
        intro hw he
        simpa [completes, hf, hw, he] using hno
      simp only [Scrub.step, hf, waitStep]
      split_ifs with he hw hl
      · exact ⟨rfl, rfl⟩
      · rw [hlast hw (by simpa using he)] at hl
        contradiction
      · exact ⟨rfl, rfl⟩
      · exact ⟨rfl, rfl⟩
    refine Or.inl ⟨hobs, hg.not_idle, ?_, ?_, h.lt⟩
    · rw [hstep.1, h.set]
    · rw [hstep.2, h.chunk]

/-- The last cycle of a pass requests the last pair, or reports the end without the request. -/
theorem Diagonal.obs_last (hc : c.eccScrubberEn = true) (h : s.Diagonal k)
    (hl : s.completes i = true) :
    k + 1 = turns c ∧ s.obs i = if s.fsmQ = .check then [diag c k] else [.complete] := by
  have hlast : s.lastAccess = true := by
    simp only [completes, Bool.and_eq_true] at hl
    exact hl.1.2
  refine ⟨h.lastAccess_iff.1 hlast, ?_⟩
  cases hf : s.fsmQ with
  | idle => exact absurd hf h.not_idle
  | check =>
    have hr : i.ready = true := by
      simp only [completes, hf, Bool.and_eq_true] at hl
      exact hl.2
    rw [obs_of_check hc hf hr, h.pair]
    rfl
  | wait => simp [obs, reqValid, evtComplete_eq, hc, hf, hl]

/-- A run that goes on with a pass requests a part of the diagonal, in order. -/
theorem Diagonal.run (hc : c.eccScrubberEn = true) (h : s.Diagonal k) (hg : Along Scrub.step Goes s is) :
    ∃ m, trace Scrub.step obs s is = (List.range' k m).map (diag c) ∧
      (run Scrub.step s is).Diagonal (k + m) := by
  induction is generalizing s k with
  | nil => exact ⟨0, rfl, h⟩
  | cons i is ih =>
    rw [trace, run_cons]
    obtain ⟨ho, hn⟩ | ⟨ho, hn⟩ := h.step hc hg.1
    · obtain ⟨m, ht, hr⟩ := ih hn hg.2
      exact ⟨m, by rw [ho, ht, List.nil_append], hr⟩
    · obtain ⟨m, ht, hr⟩ := ih hn hg.2
      refine ⟨m + 1, ?_, by rw [← Nat.add_assoc, Nat.add_right_comm]; exact hr⟩
      rw [ho, ht, List.range'_succ, List.map_cons, List.singleton_append]

/-! ## What a pass requests -/

/-- The pass ends on the request of the last pair. -/
def Pass.endsOnRequest (p : Pass c) : Prop :=
  (run step (p.before.step p.first) p.inputs).fsmQ = .check

/-- **The walk of a pass.** A pass that ends on a request requests the diagonal and reports nothing;
one that ends after a wait reports its end, and has not requested the last pair. -/
theorem Pass.trace_eq (p : Pass c) :
    (p.endsOnRequest ∧ p.trace = (List.range (turns c)).map (diag c)) ∨
      (¬ p.endsOnRequest ∧
        p.trace = (List.range (turns c - 1)).map (diag c) ++ [.complete]) := by
  obtain ⟨m, ht, hd⟩ := (diagonal_of_starts p.starts).run p.enabled p.goes
  obtain ⟨hk, ho⟩ := hd.obs_last p.enabled p.completes
  have hsplit : p.trace = (List.range m).map (diag c) ++
      obs (run step (p.before.step p.first) p.inputs) p.last := by
    rw [Pass.trace, trace_append, ht, List.range_eq_range']
    exact congrArg _ (List.append_nil _)
  rw [Nat.zero_add] at hk ho
  rw [hsplit, ho, ← hk]
  by_cases he : p.endsOnRequest
  · have hf : (Hw.run step (p.before.step p.first) p.inputs).fsmQ = .check := he
    refine Or.inl ⟨he, ?_⟩
    rw [if_pos hf, List.range_succ, List.map_append]
    rfl
  · have hf : ¬ (Hw.run step (p.before.step p.first) p.inputs).fsmQ = .check := he
    refine Or.inr ⟨he, ?_⟩
    rw [if_neg hf, Nat.add_sub_cancel]

/-- A pass that reports its end has not requested the last pair. -/
theorem last_not_mem :
    diag c (turns c - 1) ∉ (List.range (turns c - 1)).map (diag c) := by
  intro h
  obtain ⟨j, hj, he⟩ := List.mem_map.1 h
  have hpos := turns_pos (c := c)
  rw [List.mem_range] at hj
  have hne := diag_inj (by omega) (by omega) he
  omega

theorem complete_not_mem {n : Nat} : ScrubObs.complete ∉ (List.range n).map (diag c) := by
  intro h
  obtain ⟨_, _, he⟩ := List.mem_map.1 h
  rw [diag] at he
  contradiction

/-- The diagonal covers every pair exactly when the numbers of sets and of chunks are coprime. -/
theorem covers_diag_iff :
    Covers ((List.range (turns c)).map (diag c)) ↔ Nat.Coprime c.sets (chunks c) := by
  constructor
  · -- A common factor divides what is read in set 0: chunk 1 is not, when there is one.
    intro h
    by_contra hg
    have hchunks : 1 < chunks c := by
      by_contra hle
      have hone : chunks c = 1 := Nat.le_antisymm (by omega) chunks_pos
      rw [hone] at hg
      exact hg (Nat.coprime_one_right c.sets)
    have hmem := List.count_pos_iff.1 (Nat.lt_of_lt_of_eq Nat.one_pos
      (h ⟨0, c.sets_pos⟩ 1 hchunks).symm)
    obtain ⟨k, _, hk⟩ := List.mem_map.1 hmem
    rw [diag, ScrubObs.request.injEq, Fin.mk.injEq] at hk
    have hset : Nat.gcd c.sets (chunks c) ∣ k :=
      (Nat.gcd_dvd_left _ _).trans (Nat.dvd_of_mod_eq_zero hk.1)
    have hchunk : Nat.gcd c.sets (chunks c) ∣ k % chunks c :=
      (Nat.dvd_mod_iff (Nat.gcd_dvd_right _ _)).2 hset
    rw [hk.2] at hchunk
    exact hg (Nat.dvd_one.1 hchunk)
  · intro hg set chunk hchunk
    obtain ⟨hs, hc⟩ := (Nat.chineseRemainder hg set.val chunk).2
    have hlt := Nat.chineseRemainder_lt_mul hg set.val chunk c.sets_pos.ne' chunks_pos.ne'
    rw [← hg.lcm_eq_mul] at hlt
    refine List.count_eq_one_of_mem (nodup_diag le_rfl) (List.mem_map.2 ⟨_, List.mem_range.2 hlt, ?_⟩)
    rw [diag, ScrubObs.request.injEq]
    refine ⟨Fin.ext ?_, ?_⟩
    · exact Eq.trans hs (Nat.mod_eq_of_lt set.isLt)
    · exact Eq.trans hc (Nat.mod_eq_of_lt hchunk)

/-- **Coverage.** A pass requests every pair once exactly when it ends on a request, and the numbers
of sets and of chunks are coprime. -/
theorem Pass.covers_iff (p : Pass c) :
    Covers p.trace ↔ p.endsOnRequest ∧ Nat.Coprime c.sets (chunks c) := by
  obtain ⟨he, ht⟩ | ⟨he, ht⟩ := p.trace_eq
  · rw [ht, covers_diag_iff]
    exact ⟨fun h => ⟨he, h⟩, fun h => h.2⟩
  · refine ⟨?_, fun h => absurd h.1 he⟩
    intro h
    have hone := h ⟨(turns c - 1) % c.sets, Nat.mod_lt _ c.sets_pos⟩ ((turns c - 1) % chunks c)
      (Nat.mod_lt _ chunks_pos)
    have hzero : p.trace.count (diag c (turns c - 1)) = 0 := by
      rw [ht, List.count_append, List.count_eq_zero.2 last_not_mem]
      rfl
    exact absurd (hone.symm.trans hzero) Nat.one_ne_zero

/-- **No pass is exact.** The pass that requests the last pair does not raise the event, and the one
that raises the event has not requested the last pair. -/
theorem Pass.not_exact (p : Pass c) : ¬ Exact p.trace := by
  intro h
  obtain ⟨he, _⟩ := p.covers_iff.1 h.covers
  obtain ⟨_, ht⟩ | ⟨hne, _⟩ := p.trace_eq
  · have hzero : p.trace.count .complete = 0 := by
      rw [ht]
      exact List.count_eq_zero.2 complete_not_mem
    exact absurd (h.once.symm.trans hzero) Nat.one_ne_zero
  · exact hne he

end Scrub

/-! ## The scrubber in the cache -/

namespace Cache

/-- What the scrubber sees of a cycle of the cache. -/
def scrubIn (s : Cache c) (i : CacheIn c) : ScrubIn :=
  ⟨(s.pe i).scrubReqReady, i.cfgScrubEnable, i.cfgScrubRestart, i.cfgScrubPeriod⟩

/-- The scrubber runs on the grants of the cache. -/
theorem scrub_run (s : Cache c) (is : List (CacheIn c)) :
    (run step s is).scrub =
      run Scrub.step s.scrub (trace step (fun s i => [s.scrubIn i]) s is) := by
  induction is generalizing s with
  | nil => rfl
  | cons i is ih => exact ih (s.step i)

end Cache

/-! ## A pass over two sets and two chunks -/

namespace Scrub

theorem one_dvd_words : 1 ∣ Cache.scrubCfg.clWords := Nat.one_dvd _

/-- Two sets, with two chunks in each line. -/
def chunkCfg : Cfg :=
  { Cache.scrubCfg with
    accessWords := 1
    accessWords_pos := Nat.one_pos
    reqWords_dvd := Nat.dvd_refl _
    accessWords_dvd := one_dvd_words }

/-- Without a request of the core, the reads are granted once the directory is initialised. -/
def passRun : List (CacheIn chunkCfg) :=
  let i := { CacheIn.idle chunkCfg with cfgScrubEnable := true }
  [i, i, i, i]

def passIn (ready : Bool) : ScrubIn := ⟨ready, true, false, 0⟩

theorem goes_passIn : Along step Goes ((reset chunkCfg).step (passIn false))
    [passIn false, passIn true] := by
  refine ⟨⟨rfl, ?_⟩, ⟨rfl, ?_⟩, trivial⟩
  · decide
  · decide

def diagonalPass : Pass chunkCfg where
  before := reset chunkCfg
  first := passIn false
  inputs := [passIn false, passIn true]
  last := passIn true
  enabled := rfl
  starts := rfl
  goes := goes_passIn
  completes := rfl

/-- The scrubber goes through its pass in the cache after reset. It reads chunk 0 of set 0 and chunk
1 of set 1 only, and the event is not raised. -/
theorem diagonalPass_not_exact :
    trace Cache.step (fun s i => [s.scrubIn i]) (Cache.blank chunkCfg).reset passRun =
      diagonalPass.first :: (diagonalPass.inputs ++ [diagonalPass.last]) ∧
    diagonalPass.trace = [diag chunkCfg 0, diag chunkCfg 1] ∧ ¬ Exact diagonalPass.trace := by
  refine ⟨by decide +kernel, by decide, ?_⟩
  intro h
  have hzero : diagonalPass.trace.count (.request ⟨0, chunkCfg.sets_pos⟩ 1) = 0 := by decide
  exact absurd ((h.covers ⟨0, chunkCfg.sets_pos⟩ 1 (by decide)).symm.trans hzero) Nat.one_ne_zero

end Scrub

end Hpdcache
