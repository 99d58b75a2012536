import Mathlib.Data.Nat.Prime.Basic
import Mathlib.Tactic.Ring

/-!
# Lanes of nested words

Bytes in aligned words of two widths, of which one divides the other.

* `div_eq_div_iff_slot` — a word is its place in the wider word and the place of this one.
* `mod_add_le` — an aligned access does not cross a word.
* `dvd_of_le_pow` — of two powers of two the smaller one divides the other.
-/

namespace Hw

/-- Words of `r` bytes in slots of `w` words: two bytes are in the same word when they are in the
same slot and in the same word of the slot. -/
theorem div_eq_div_iff_slot (w r x y : Nat) :
    x / (w * r) = y / (w * r) ∧ x % (w * r) / r = y % (w * r) / r ↔ x / r = y / r := by
  simp only [Nat.mul_comm w r, ← Nat.div_div_eq_div_mul,
    Nat.mod_mul_right_div_self]
  constructor
  · rintro ⟨hdiv, hmod⟩
    rw [← Nat.div_add_mod (x / r) w, ← Nat.div_add_mod (y / r) w, hdiv, hmod]
  · intro h
    simp [h]

/-- An access that is aligned to its size is within the word of its first byte. -/
theorem mod_add_le {s w x : Nat} (hw : 0 < w) (hs : s ∣ w) (hx : s ∣ x) : x % w + s ≤ w := by
  have hlt := Nat.mod_lt x hw
  obtain ⟨p, hp⟩ := (Nat.dvd_mod_iff hs).2 hx
  obtain ⟨q, hq⟩ := hs
  rw [hp, hq] at hlt ⊢
  have hpq : p < q := Nat.lt_of_mul_lt_mul_left hlt
  calc s * p + s = s * (p + 1) := by ring
    _ ≤ s * q := Nat.mul_le_mul_left _ hpq

/-- Widths that divide a power of two divide each other. -/
theorem dvd_of_le_pow {n x y : Nat} (hx : x ∣ 2 ^ n) (hy : y ∣ 2 ^ n) (h : x ≤ y) : x ∣ y := by
  obtain ⟨p, -, rfl⟩ := (Nat.dvd_prime_pow Nat.prime_two).1 hx
  obtain ⟨q, -, rfl⟩ := (Nat.dvd_prime_pow Nat.prime_two).1 hy
  exact Nat.pow_dvd_pow 2 ((Nat.pow_le_pow_iff_right Nat.one_lt_two).1 h)

/-- The bytes of an access are those that lie in its word at the lanes of the access. -/
theorem mem_access_iff {s w x a : Nat} (h : x % w + s ≤ w) :
    x ≤ a ∧ a < x + s ↔ a / w = x / w ∧ x % w ≤ a % w ∧ a % w < x % w + s := by
  have ha := Nat.div_add_mod a w
  have hx := Nat.div_add_mod x w
  constructor
  · intro hin
    have hdiv : a / w = x / w := by
      apply Nat.div_eq_of_lt_le
      · rw [Nat.mul_comm]
        omega
      · rw [Nat.succ_mul, Nat.mul_comm]
        omega
    rw [hdiv] at ha
    omega
  · intro hin
    rw [hin.1] at ha
    omega

end Hw
