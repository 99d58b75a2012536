import Hpdcache.Lib.Select

/-!
# Arbiters that hold their grant

The fixed-priority and the round-robin arbiters. Both keep the grant that they have shown until it
is taken: once a requester is pending, the output is frozen in a register until `ready`, whatever
happens to the request vector meanwhile.

* `RrArb.gnt_mem` — an arbiter that is not holding grants a requester.
* `RrArb.oneHot_gnt` — at most one requester is granted.
* `RrArb.gnt_of_held` — an arbiter that holds grants what it has registered.
* `RrArb.turns_step` — a requester that keeps its request gets one grant nearer with every grant.
-/

namespace Hw

variable {n : Nat}

/-! ## Round robin -/

/-- State of a round-robin arbiter. -/
structure RrArb (n : Nat) where
  waitQ : Bool
  gntQ : Bits n

namespace RrArb

/-- After reset the last position was the last to be granted. -/
def reset (n : Nat) : RrArb n where
  waitQ := false
  gntQ := fun i => decide (i.val + 1 = n)

/-- The thermometer mask of the positions above the last grant. -/
def mask (a : RrArb n) : Bits n :=
  fun i => decide (∃ j k : Fin n, a.gntQ j = true ∧ k.val = (j.val + 1) % n ∧ k ≤ i)

/-- The first request above the last grant. -/
def gntMsk (a : RrArb n) (req : Bits n) : Bits n :=
  prio fun i => req i && a.mask i

/-- The grant computed from the requests. -/
def next (a : RrArb n) (req : Bits n) : Bits n :=
  if any (a.gntMsk req) then a.gntMsk req else prio req

/-- The output grant. -/
def gnt (a : RrArb n) (req : Bits n) : Bits n :=
  if a.waitQ then a.gntQ else a.next req

def step (a : RrArb n) (req : Bits n) (ready : Bool) : RrArb n where
  waitQ := !ready && (a.waitQ || any req)
  gntQ := if !a.waitQ && any req then a.next req else a.gntQ

variable {a : RrArb n} {req : Bits n} {i : Fin n}

theorem gntMsk_mem (h : a.gntMsk req i = true) : req i = true := by
  have hm := prio_mem h
  rw [Bool.and_eq_true] at hm
  exact hm.1

theorem next_mem (h : a.next req i = true) : req i = true := by
  unfold next at h
  split_ifs at h
  · exact gntMsk_mem h
  · exact prio_mem h

theorem oneHot_next : OneHot (a.next req) := by
  unfold next
  split_ifs
  · exact oneHot_prio _
  · exact oneHot_prio _

theorem any_next : any (a.next req) = any req := by
  unfold next
  split_ifs with h
  · rw [h]
    obtain ⟨i, hi⟩ := any_eq_true.1 h
    exact (any_eq_true.2 ⟨i, gntMsk_mem hi⟩).symm
  · exact any_prio req

/-- An arbiter that holds grants what it has registered. -/
theorem gnt_of_held (h : a.waitQ = true) : a.gnt req = a.gntQ := by
  simp [gnt, h]

theorem gnt_of_free (h : a.waitQ = false) : a.gnt req = a.next req := by
  simp [gnt, h]

/-- An arbiter that is not holding grants a requester. -/
theorem gnt_mem (h : a.waitQ = false) (hg : a.gnt req i = true) : req i = true := by
  rw [gnt_of_free h] at hg
  exact next_mem hg

theorem oneHot_gnt (ha : OneHot a.gntQ) : OneHot (a.gnt req) := by
  unfold gnt
  split_ifs
  · exact ha
  · exact oneHot_next

theorem oneHot_step (ha : OneHot a.gntQ) (ready : Bool) : OneHot (a.step req ready).gntQ := by
  unfold step
  dsimp only
  split_ifs
  · exact oneHot_next
  · exact ha

theorem oneHot_reset : OneHot (reset n).gntQ := by
  intro i j hi hj
  simp only [reset, decide_eq_true_eq] at hi hj
  omega

variable {req' : Bits n} {ready : Bool}

/-- What the arbiter holds is requested. -/
def Held (a : RrArb n) (req : Bits n) : Prop :=
  OneHot a.gntQ ∧ (a.waitQ = true → ∃ i, a.gntQ i = true ∧ req i = true)

theorem held_reset : (reset n).Held req :=
  ⟨oneHot_reset, nofun⟩

theorem Held.oneHot_gnt (h : a.Held req) : OneHot (a.gnt req) := RrArb.oneHot_gnt h.1

theorem Held.gnt_mem (h : a.Held req) (hg : a.gnt req i = true) : req i = true := by
  cases hw : a.waitQ with
  | false => exact RrArb.gnt_mem hw hg
  | true =>
    rw [gnt_of_held hw] at hg
    obtain ⟨j, hj, hreq⟩ := h.2 hw
    rw [h.1 i j hg hj]
    exact hreq

theorem Held.any_gnt (h : a.Held req) : any (a.gnt req) = any req := by
  cases hw : a.waitQ with
  | false => rw [gnt_of_free hw, any_next]
  | true =>
    obtain ⟨j, hj, hreq⟩ := h.2 hw
    rw [gnt_of_held hw, any_eq_true.2 ⟨j, hj⟩, any_eq_true.2 ⟨j, hreq⟩]

theorem Held.step (h : a.Held req)
    (hstay : ready = false → ∀ i, a.gnt req i = true → req' i = true) :
    (a.step req ready).Held req' := by
  refine ⟨oneHot_step h.1 ready, ?_⟩
  intro hw
  simp only [RrArb.step, Bool.and_eq_true, Bool.not_eq_true', Bool.or_eq_true] at hw ⊢
  obtain ⟨hready, hpend⟩ := hw
  cases hwait : a.waitQ with
  | true =>
    obtain ⟨i, hi, -⟩ := h.2 hwait
    refine ⟨i, by simpa using hi, hstay hready i ?_⟩
    rw [gnt_of_held hwait]
    exact hi
  | false =>
    have hany : any req = true := by simpa [hwait] using hpend
    have hnext : any (a.next req) = true := by rw [any_next, hany]
    obtain ⟨i, hi⟩ := any_eq_true.1 hnext
    refine ⟨i, by simpa [hany] using hi, hstay hready i ?_⟩
    rw [gnt_of_free hwait]
    exact hi

/-! ### The order of the grants -/

/-- The grants from the one of `j` to the one of `r`, when every requester asks: one for the
position after `j`, and `n` for `j` itself. -/
def turnsFrom (j r : Fin n) : Nat :=
  if j < r then r.val - j.val else n - j.val + r.val

theorem turnsFrom_pos (j r : Fin n) : 0 < turnsFrom j r := by
  have hj := j.isLt
  unfold turnsFrom
  split_ifs with h
  · have hlt : j.val < r.val := h
    omega
  · omega

theorem turnsFrom_le (j r : Fin n) : turnsFrom j r ≤ n := by
  have hj := j.isLt
  have hr := r.isLt
  unfold turnsFrom
  split_ifs with h
  · omega
  · have hle : ¬ j.val < r.val := h
    omega

theorem turnsFrom_lt {j r : Fin n} (h : j ≠ r) : turnsFrom j r < n := by
  have hj := j.isLt
  have hr := r.isLt
  have hne : j.val ≠ r.val := fun he => h (Fin.ext he)
  unfold turnsFrom
  split_ifs with hlt
  · omega
  · have hle : ¬ j.val < r.val := hlt
    omega

/-- What is granted between `j` and `r` comes before `r`. -/
theorem turnsFrom_trans {j g r : Fin n} (h : turnsFrom j g ≤ turnsFrom j r) (hne : g ≠ r) :
    turnsFrom g r < turnsFrom j r := by
  have hj := j.isLt
  have hg := g.isLt
  have hr := r.isLt
  have hval : g.val ≠ r.val := fun he => hne (Fin.ext he)
  simp only [turnsFrom, Fin.lt_def] at h ⊢
  split_ifs at h ⊢ <;> omega

/-- The mask after a grant to `j`: the positions above it, or all of them after the last one. -/
theorem mask_ofIndex {j : Fin n} (hq : a.gntQ = ofIndex j) :
    a.mask i = true ↔ j < i ∨ j.val + 1 = n := by
  have hj := j.isLt
  have hi := i.isLt
  simp only [mask, decide_eq_true_eq, hq, ofIndex_eq_true]
  constructor
  · rintro ⟨k, l, rfl, hl, hle⟩
    have hle' : l.val ≤ i.val := hle
    by_cases hlast : k.val + 1 = n
    · exact Or.inr hlast
    · rw [Nat.mod_eq_of_lt (by omega)] at hl
      left
      show k.val < i.val
      omega
  · intro h
    refine ⟨j, ⟨(j.val + 1) % n, Nat.mod_lt _ j.pos⟩, rfl, rfl, ?_⟩
    show (j.val + 1) % n ≤ i.val
    rcases h with h | h
    · have hlt : j.val < i.val := h
      rw [Nat.mod_eq_of_lt (by omega)]
      exact hlt
    · rw [h, Nat.mod_self]
      exact Nat.zero_le _

/-- A grant goes to the first requester after the last grant. -/
theorem next_first {j g r : Fin n} (hq : a.gntQ = ofIndex j) (hg : a.next req g = true)
    (hr : req r = true) : turnsFrom j g ≤ turnsFrom j r := by
  have hj := j.isLt
  have hgn := g.isLt
  have hrn := r.isLt
  unfold next at hg
  split_ifs at hg with hany
  · have hmem := prio_mem hg
    simp only [Bool.and_eq_true, mask_ofIndex hq] at hmem
    have hlow : a.mask r = true → g ≤ r := by
      intro hm
      by_contra hlt
      have hnot := (first?_eq_some_iff.1 (prio_eq_true.1 hg)).2 r (not_le.1 hlt)
      rw [hr, hm] at hnot
      contradiction
    rw [mask_ofIndex hq] at hlow
    simp only [turnsFrom, Fin.lt_def, Fin.le_def] at hmem hlow ⊢
    split_ifs <;> omega
  · -- no requester above the last grant
    have hlow : g ≤ r := by
      by_contra hlt
      have hnot := (first?_eq_some_iff.1 (prio_eq_true.1 hg)).2 r (not_le.1 hlt)
      rw [hr] at hnot
      contradiction
    have hbelow : ∀ k, req k = true → ¬ j < k := by
      intro k hk hjk
      apply hany
      rw [gntMsk, any_prio, any_eq_true]
      exact ⟨k, by rw [hk, (mask_ofIndex hq).2 (Or.inl hjk)]; rfl⟩
    have hjr := hbelow r hr
    have hjg := hbelow g (prio_mem hg)
    simp only [turnsFrom, hjr, hjg, if_false]
    have hval : g.val ≤ r.val := hlow
    omega

/-- The grants after which the requester `r` has had its own, when `j` is registered. -/
def turns (a : RrArb n) (j r : Fin n) : Nat :=
  if a.waitQ then (if j = r then 1 else 1 + turnsFrom j r) else turnsFrom j r

theorem turns_of_held {j r : Fin n} (hw : a.waitQ = true) (hjr : j ≠ r) :
    a.turns j r = 1 + turnsFrom j r := by
  rw [turns, if_pos hw, if_neg hjr]

theorem turns_of_free {j r : Fin n} (hw : a.waitQ = false) : a.turns j r = turnsFrom j r := by
  rw [turns, if_neg (by rw [hw]; exact Bool.false_ne_true)]

theorem turns_le_succ (j r : Fin n) : a.turns j r ≤ 1 + turnsFrom j r := by
  have hpos := turnsFrom_pos j r
  unfold turns
  split_ifs <;> omega

theorem turns_pos (j r : Fin n) : 0 < a.turns j r := by
  have hpos := turnsFrom_pos j r
  unfold turns
  split_ifs <;> omega

theorem turns_le (j r : Fin n) : a.turns j r ≤ n := by
  have hle := turnsFrom_le j r
  have hj := j.isLt
  unfold turns
  split_ifs with hw hjr
  · omega
  · have hlt := turnsFrom_lt hjr
    omega
  · exact hle

/-- **One grant nearer.** While `r` asks, the arbiter grants someone in every cycle. It grants `r`,
or the turn of `r` gets nearer when the grant is taken, and no further otherwise. -/
theorem turns_step {j r : Fin n} (hq : a.gntQ = ofIndex j) (hr : req r = true) (ready : Bool) :
    ∃ g, a.gnt req = ofIndex g ∧ (a.step req ready).gntQ = ofIndex g ∧
      (g = r ∨ (a.step req ready).turns g r + (if ready then 1 else 0) ≤ a.turns j r) ∧
      (ready = false → (a.step req ready).turns g r ≤ a.turns j r) := by
  have hany : any req = true := any_eq_true.2 ⟨r, hr⟩
  have htaken : ∀ g r', (a.step req true).turns g r' = turnsFrom g r' := fun _ _ =>
    turns_of_free rfl
  cases hw : a.waitQ with
  | true =>
    have hgnt : (a.step req ready).gntQ = ofIndex j := by simp [step, hw, hq]
    refine ⟨j, (gnt_of_held hw).trans hq, hgnt, ?_, ?_⟩
    · by_cases hjr : j = r
      · exact Or.inl hjr
      · right
        have hturn := turns_of_held hw hjr
        cases ready with
        | true =>
          rw [htaken, hturn, if_pos rfl, Nat.add_comm]
        | false =>
          rw [hturn, if_neg Bool.false_ne_true]
          exact turns_le_succ j r
    · rintro rfl
      have hheld : (a.step req false).waitQ = true := by simp [step, hw]
      rw [turns, turns, if_pos hheld, if_pos hw]
  | false =>
    have hnext : any (a.next req) = true := by rw [any_next, hany]
    obtain ⟨g, hg⟩ := any_eq_true.1 hnext
    have hone : a.next req = ofIndex g := oneHot_next.eq_ofIndex hg
    have hfirst := next_first hq hg hr
    have hpos := turnsFrom_pos j r
    have hnear : g ≠ r → turnsFrom g r < turnsFrom j r := turnsFrom_trans hfirst
    have hheld : (a.step req false).waitQ = true := by simp [step, hany]
    have hgnt : (a.step req ready).gntQ = ofIndex g := by simp [step, hw, hany, hone]
    refine ⟨g, (gnt_of_free hw).trans hone, hgnt, ?_, ?_⟩
    · by_cases hgr : g = r
      · exact Or.inl hgr
      · right
        have hlt := hnear hgr
        rw [turns_of_free hw]
        cases ready with
        | true =>
          rw [htaken, if_pos rfl]
          exact hlt
        | false =>
          rw [turns_of_held hheld hgr, if_neg Bool.false_ne_true]
          omega
    · rintro rfl
      rw [turns_of_free hw]
      by_cases hgr : g = r
      · rw [turns, if_pos hheld, if_pos hgr]
        exact hpos
      · have hlt := hnear hgr
        rw [turns_of_held hheld hgr]
        omega

end RrArb

/-! ## Fixed priority -/

/-- State of a fixed-priority arbiter. -/
structure FxArb (n : Nat) where
  waitQ : Bool
  gntQ : Bits n

namespace FxArb

def reset (n : Nat) : FxArb n where
  waitQ := false
  gntQ := fun _ => false

/-- The output grant. -/
def gnt (a : FxArb n) (req : Bits n) : Bits n :=
  if a.waitQ then a.gntQ else prio req

def step (a : FxArb n) (req : Bits n) (ready : Bool) : FxArb n where
  waitQ := !ready && (a.waitQ || any req)
  gntQ := if !ready && !a.waitQ && any req then prio req else a.gntQ

variable {a : FxArb n} {req req' : Bits n} {i : Fin n} {ready : Bool}

/-- What the arbiter holds is requested: this is kept as long as a request stays until it is
taken. -/
def Held (a : FxArb n) (req : Bits n) : Prop :=
  OneHot a.gntQ ∧ (a.waitQ = true → ∃ i, a.gntQ i = true ∧ req i = true)

theorem held_reset : (reset n).Held req :=
  ⟨nofun, nofun⟩

theorem oneHot_gnt (h : OneHot a.gntQ) : OneHot (a.gnt req) := by
  unfold gnt
  split_ifs
  · exact h
  · exact oneHot_prio req

theorem oneHot_step (h : OneHot a.gntQ) : OneHot (a.step req ready).gntQ := by
  unfold step
  dsimp only
  split_ifs
  · exact oneHot_prio req
  · exact h

theorem Held.oneHot_gnt (h : a.Held req) : OneHot (a.gnt req) := FxArb.oneHot_gnt h.1

/-- A grant of an arbiter that holds a request only is a request. -/
theorem Held.gnt_mem (h : a.Held req) (hg : a.gnt req i = true) : req i = true := by
  unfold gnt at hg
  split_ifs at hg with hw
  · obtain ⟨j, hj, hreq⟩ := h.2 hw
    rw [h.1 i j hg hj]
    exact hreq
  · exact prio_mem hg

theorem Held.any_gnt (h : a.Held req) : any (a.gnt req) = any req := by
  unfold gnt
  split_ifs with hw
  · obtain ⟨j, hj, hreq⟩ := h.2 hw
    rw [any_eq_true.2 ⟨j, hj⟩, any_eq_true.2 ⟨j, hreq⟩]
  · exact any_prio req

/-- The request that is not taken stays: the arbiter holds a request in the next cycle too. -/
theorem Held.step (h : a.Held req)
    (hstay : ready = false → ∀ i, a.gnt req i = true → req' i = true) :
    (a.step req ready).Held req' := by
  refine ⟨oneHot_step h.1, ?_⟩
  · intro hw
    simp only [FxArb.step, Bool.and_eq_true, Bool.not_eq_true', Bool.or_eq_true] at hw ⊢
    obtain ⟨hready, hpend⟩ := hw
    cases hwait : a.waitQ with
    | true =>
      obtain ⟨i, hi, -⟩ := h.2 hwait
      refine ⟨i, by simpa [hready, hwait] using hi, hstay hready i ?_⟩
      simpa [gnt, hwait] using hi
    | false =>
      have hany : any req = true := by simpa [hwait] using hpend
      rw [← any_prio req, any_eq_true] at hany
      obtain ⟨i, hi⟩ := hany
      have hreq : any req = true := any_eq_true.2 ⟨i, prio_mem hi⟩
      refine ⟨i, by simpa [hready, hwait, hreq] using hi, hstay hready i ?_⟩
      simpa [gnt, hwait] using hi

end FxArb

end Hw
