import Hpdcache.Lib.Select
import Mathlib.Algebra.BigOperators.Fin
import Mathlib.Algebra.CharP.Two
import Mathlib.Data.Matrix.Mul
import Mathlib.Algebra.Field.ZMod
import Mathlib.Data.ZMod.Basic
import Mathlib.InformationTheory.Hamming

/-!
# Single error correction, double error detection

A word is a codeword when its syndrome, the product with the check matrix, is zero. With the columns
of a Hsiao code, distinct and of odd weight, the syndrome of a word that is not a codeword tells an
odd number of errors from an even one and has the position of a single error.

* `Hsiao.sum_syndrome` — the parity of the syndrome is the parity of the number of errors.
* `Hsiao.four_le_hammingDist` — two codewords differ in at least four positions.
* `Hsiao.correct` — a single error is at the position whose column is the syndrome.
* `toZ_redXor` — the XOR of all the bits of a vector is a sum.
-/

namespace Hw

open Matrix

/-! ## Words over the field of two elements -/

section Words

variable {ι κ : Type*} [Fintype ι]

theorem zmod_two_eq_one {a : ZMod 2} (h : a ≠ 0) : a = 1 :=
  Fin.eq_one_of_ne_zero a h

/-- The sum of a word is the parity of its weight. -/
theorem sum_eq_hammingNorm (e : ι → ZMod 2) : ∑ i, e i = (hammingNorm e : ZMod 2) := by
  rw [hammingNorm, Finset.natCast_card_filter]
  apply Finset.sum_congr rfl
  intro i _
  by_cases h : e i = 0
  · simp [h]
  · simp [zmod_two_eq_one h]

variable [DecidableEq ι]

/-- A word of weight one. -/
theorem eq_single_of_hammingNorm {e : ι → ZMod 2} (h : hammingNorm e = 1) :
    ∃ i, e = Pi.single i 1 := by
  obtain ⟨i, hi⟩ := Finset.card_eq_one.1 h
  refine ⟨i, funext fun k => ?_⟩
  have hk : e k ≠ 0 ↔ k = i := by
    rw [← Finset.mem_singleton, ← hi, Finset.mem_filter_univ]
  by_cases hki : k = i
  · rw [zmod_two_eq_one (hk.2 hki), hki, Pi.single_eq_same]
  · rw [Pi.single_eq_of_ne hki]
    exact not_not.1 fun hne => hki (hk.1 hne)

/-- A word of weight two. -/
theorem eq_pair_of_hammingNorm {e : ι → ZMod 2} (h : hammingNorm e = 2) :
    ∃ i j, i ≠ j ∧ e = Pi.single i 1 + Pi.single j 1 := by
  obtain ⟨i, j, hij, hs⟩ := Finset.card_eq_two.1 h
  refine ⟨i, j, hij, funext fun k => ?_⟩
  have hk : e k ≠ 0 ↔ k = i ∨ k = j := by
    rw [← Finset.mem_singleton (a := j), ← Finset.mem_insert, ← hs, Finset.mem_filter_univ]
  rw [Pi.add_apply]
  by_cases hi : k = i
  · rw [zmod_two_eq_one (hk.2 (.inl hi)), hi, Pi.single_eq_same, Pi.single_eq_of_ne hij, add_zero]
  · rw [Pi.single_eq_of_ne hi, zero_add]
    by_cases hj : k = j
    · rw [zmod_two_eq_one (hk.2 (.inr hj)), hj, Pi.single_eq_same]
    · rw [Pi.single_eq_of_ne hj]
      exact not_not.1 fun hne => (hk.1 hne).elim hi hj

end Words

/-! ## Hsiao codes -/

section Code

variable {ι κ : Type*} [Fintype ι] [DecidableEq ι] [Fintype κ] {H : Matrix κ ι (ZMod 2)}

/-- The columns of the check matrix are distinct, and each has an odd number of ones. -/
structure Hsiao (H : Matrix κ ι (ZMod 2)) : Prop where
  col_injective : Function.Injective H.col
  col_odd : ∀ i, ∑ j, H j i = 1

namespace Hsiao

omit [DecidableEq ι] in
/-- The parity of a syndrome is the parity of the word. -/
theorem sum_mulVec (h : Hsiao H) (e : ι → ZMod 2) : ∑ j, (H *ᵥ e) j = ∑ i, e i := by
  simp only [Matrix.mulVec, dotProduct]
  rw [Finset.sum_comm]
  apply Finset.sum_congr rfl
  intro i _
  rw [← Finset.sum_mul, h.col_odd i, one_mul]

omit [DecidableEq ι] in
theorem even_of_mulVec (h : Hsiao H) {e : ι → ZMod 2} (he : H *ᵥ e = 0) :
    Even (hammingNorm e) := by
  rw [← ZMod.natCast_eq_zero_iff_even, ← sum_eq_hammingNorm, ← h.sum_mulVec e, he]
  exact Finset.sum_const_zero

/-- A codeword other than zero has at least four ones. -/
theorem four_le_hammingNorm (h : Hsiao H) {e : ι → ZMod 2} (he : H *ᵥ e = 0) (hne : e ≠ 0) :
    4 ≤ hammingNorm e := by
  have heven := h.even_of_mulVec he
  have hpos : hammingNorm e ≠ 0 := fun h0 => hne (hammingNorm_eq_zero.1 h0)
  have htwo : hammingNorm e ≠ 2 := by
    intro h2
    obtain ⟨i, j, hij, rfl⟩ := eq_pair_of_hammingNorm h2
    rw [Matrix.mulVec_add, Matrix.mulVec_single_one, Matrix.mulVec_single_one] at he
    exact hij (h.col_injective (funext fun k => CharTwo.add_eq_zero.1 (congrFun he k)))
  obtain ⟨n, hn⟩ := heven
  omega

/-- Two codewords differ in at least four positions. -/
theorem four_le_hammingDist (h : Hsiao H) {x y : ι → ZMod 2} (hx : H *ᵥ x = 0) (hy : H *ᵥ y = 0)
    (hne : x ≠ y) : 4 ≤ hammingDist x y := by
  rw [hammingDist_eq_hammingNorm]
  apply h.four_le_hammingNorm
  · rw [Matrix.mulVec_add, Matrix.mulVec_neg, hx, hy, neg_zero, add_zero]
  · exact fun h0 => hne (neg_add_eq_zero.1 h0)

omit [DecidableEq ι] [Fintype κ] in
/-- The syndrome of a word is the one of its errors. -/
theorem mulVec_of_codeword {x : ι → ZMod 2} (hx : H *ᵥ x = 0) (y : ι → ZMod 2) :
    H *ᵥ y = H *ᵥ (-x + y) := by
  rw [Matrix.mulVec_add, Matrix.mulVec_neg, hx, neg_zero, zero_add]

omit [DecidableEq ι] in
/-- The parity of the syndrome is the parity of the number of errors. -/
theorem sum_syndrome (h : Hsiao H) {x : ι → ZMod 2} (hx : H *ᵥ x = 0) (y : ι → ZMod 2) :
    ∑ j, (H *ᵥ y) j = (hammingDist x y : ZMod 2) := by
  rw [mulVec_of_codeword hx, h.sum_mulVec, sum_eq_hammingNorm, hammingDist_eq_hammingNorm]

/-- Up to three errors are seen. -/
theorem syndrome_eq_zero (h : Hsiao H) {x y : ι → ZMod 2} (hx : H *ᵥ x = 0)
    (hlt : hammingDist x y < 4) : H *ᵥ y = 0 ↔ x = y := by
  constructor
  · intro hy
    by_contra hne
    have := h.four_le_hammingDist hx hy hne
    omega
  · rintro rfl
    exact hx

/-- A single error is at the position whose column is the syndrome. -/
theorem correct (h : Hsiao H) {x y : ι → ZMod 2} (hx : H *ᵥ x = 0) (hle : hammingDist x y ≤ 1)
    (i : ι) : H *ᵥ y = H.col i ↔ y i ≠ x i := by
  rw [mulVec_of_codeword hx]
  have hd : hammingNorm (-x + y) ≤ 1 := by
    rw [← hammingDist_eq_hammingNorm]
    exact hle
  rcases Nat.le_one_iff_eq_zero_or_eq_one.1 hd with h0 | h1
  · have hxy : x = y := neg_add_eq_zero.1 (hammingNorm_eq_zero.1 h0)
    rw [hxy, neg_add_cancel, Matrix.mulVec_zero]
    constructor
    · intro hcol
      have hodd := h.col_odd i
      simp only [show ∀ j, H j i = 0 from fun j => (congrFun hcol j).symm,
        Finset.sum_const_zero] at hodd
      exact absurd hodd (by decide)
    · intro hne
      exact absurd rfl hne
  · obtain ⟨k, hk⟩ := eq_single_of_hammingNorm h1
    have hi : y i ≠ x i ↔ k = i := by
      have hne : y i ≠ x i ↔ (-x + y) i ≠ 0 := by
        rw [Pi.add_apply, Pi.neg_apply, ne_eq, ne_eq, neg_add_eq_zero, eq_comm]
      rw [hne, hk]
      by_cases hik : i = k
      · simp [hik]
      · simp [Ne.symm hik]
    rw [hi, hk, Matrix.mulVec_single_one]
    exact h.col_injective.eq_iff

end Hsiao

end Code

/-! ## Vectors of bits -/

variable {n : Nat}

/-- The XOR of all the bits. -/
def redXor (v : Bits n) : Bool :=
  (List.finRange n).foldr (fun i b => v i ^^ b) false

/-- A bit as an element of the field. -/
def toZ (b : Bool) : ZMod 2 := if b then 1 else 0

theorem toZ_injective : Function.Injective toZ := by decide

theorem toZ_xor (a b : Bool) : toZ (a ^^ b) = toZ a + toZ b := by
  revert a b
  decide

theorem toZ_and (a b : Bool) : toZ (a && b) = toZ a * toZ b := by
  revert a b
  decide

@[simp] theorem toZ_eq_zero {b : Bool} : toZ b = 0 ↔ b = false := by
  revert b
  decide

@[simp] theorem toZ_eq_one {b : Bool} : toZ b = 1 ↔ b = true := by
  revert b
  decide

/-- The XOR of all the bits of a vector is a sum. -/
theorem toZ_redXor (v : Bits n) : toZ (redXor v) = ∑ i, toZ (v i) := by
  rw [← List.sum_ofFn, List.ofFn_eq_map, redXor]
  induction List.finRange n with
  | nil => rfl
  | cons i l ih => rw [List.foldr_cons, List.map_cons, List.sum_cons, toZ_xor, ih]

theorem redXor_xor (v w : Bits n) : redXor (fun i => v i ^^ w i) = (redXor v ^^ redXor w) := by
  apply toZ_injective
  rw [toZ_xor, toZ_redXor, toZ_redXor, toZ_redXor, ← Finset.sum_add_distrib]
  exact Finset.sum_congr rfl fun i _ => toZ_xor _ _

theorem redXor_single (a : Fin n) (b : Bool) :
    (redXor fun i => decide (i = a) && b) = b := by
  apply toZ_injective
  rw [toZ_redXor, Finset.sum_eq_single a]
  · rw [decide_eq_true rfl, Bool.true_and]
  · intro i _ hne
    rw [decide_eq_false hne, Bool.false_and]
    rfl
  · intro h
    exact absurd (Finset.mem_univ a) h

theorem hammingDist_toZ (v w : Bits n) :
    hammingDist (fun i => toZ (v i)) (fun i => toZ (w i)) = hammingDist v w :=
  hammingDist_comp (fun _ => toZ) fun _ => toZ_injective

end Hw
