import Hpdcache.Lib.Select
import Mathlib.Algebra.Group.Nat.Defs
import Mathlib.Tactic.Common

/-!
# Words of bytes

A word of `n` bytes, least significant first, as a bit vector, and its bytes; and bytes as bits, for
the codes whose words are no whole number of bytes.

* `extract_word` — a part of a word is the word of a part of the bytes.
* `byte_append_self` — the bytes of a word written twice are those of the word.
* `bitsOf_bytesOf`, `bytesOf_bitsOf` — bits of bytes and bytes of bits.
-/

namespace Hw

variable {n m w k : Nat} {f g : Nat → BitVec 8}

/-- The number of `n` bytes. -/
def bytesToNat (n : Nat) (f : Nat → BitVec 8) : Nat :=
  (List.range n).foldr (fun k acc => (f k).toNat + 256 * acc) 0

/-- The word of `n` bytes. -/
def word (n : Nat) (f : Nat → BitVec 8) : BitVec (8 * n) := BitVec.ofNat _ (bytesToNat n f)

/-- A byte of a word. -/
def byte (x : BitVec w) (k : Nat) : BitVec 8 := x.extractLsb' (8 * k) 8

theorem bytesToNat_succ (n : Nat) (f : Nat → BitVec 8) :
    bytesToNat (n + 1) f = 2 ^ 8 * bytesToNat n (fun k => f (k + 1)) + (f 0).toNat := by
  simp only [bytesToNat, List.range_succ_eq_map, List.foldr_cons, List.foldr_map]
  exact Nat.add_comm _ _

theorem testBit_bytesToNat (j : Nat) (hj : j < 8 * n) :
    (bytesToNat n f).testBit j = (f (j / 8)).getLsbD (j % 8) := by
  induction n generalizing f j with
  | zero => omega
  | succ n ih =>
    rw [bytesToNat_succ, Nat.testBit_two_pow_mul_add _ (f 0).isLt]
    split_ifs with h
    · rw [Nat.div_eq_of_lt h, Nat.mod_eq_of_lt h]
      rfl
    · rw [ih (j - 8) (by omega)]
      have h1 : (j - 8) / 8 + 1 = j / 8 := by omega
      have h2 : (j - 8) % 8 = j % 8 := by omega
      rw [h1, h2]

theorem getLsbD_word (j : Nat) :
    (word n f).getLsbD j = (decide (j < 8 * n) && (f (j / 8)).getLsbD (j % 8)) := by
  rw [word, BitVec.getLsbD_ofNat]
  by_cases hj : j < 8 * n
  · rw [testBit_bytesToNat j hj]
  · simp [hj]

theorem getLsbD_byte (x : BitVec w) (k j : Nat) :
    (byte x k).getLsbD j = (decide (j < 8) && x.getLsbD (8 * k + j)) := by
  simp [byte]

theorem word_congr (h : ∀ k < n, f k = g k) : word n f = word n g := by
  refine BitVec.eq_of_getLsbD_eq fun j hj => ?_
  rw [getLsbD_word, getLsbD_word, h (j / 8) (by omega)]

theorem word_not : word n (fun k => ~~~ f k) = ~~~ word n f := by
  refine BitVec.eq_of_getLsbD_eq fun j hj => ?_
  have h8 : j % 8 < 8 := Nat.mod_lt _ (by omega)
  rw [BitVec.getLsbD_not, getLsbD_word, getLsbD_word, BitVec.getLsbD_not]
  simp only [hj, h8, decide_true, Bool.true_and]

/-- A part of a word is the word of a part of the bytes. -/
theorem extract_word {a : Nat} (h : a + n ≤ m) :
    (word m f).extractLsb' (8 * a) (8 * n) = word n fun k => f (a + k) := by
  refine BitVec.eq_of_getLsbD_eq fun j hj => ?_
  have h1 : (8 * a + j) / 8 = a + j / 8 := by omega
  have h2 : (8 * a + j) % 8 = j % 8 := by omega
  have h3 : 8 * a + j < 8 * m := by omega
  rw [BitVec.getLsbD_extractLsb', getLsbD_word, getLsbD_word, h1, h2]
  simp only [hj, h3, decide_true, Bool.true_and]

/-- The bytes of a word written twice are those of the word. -/
theorem byte_append_self (x : BitVec (8 * n)) (hk : k < n) :
    byte (x ++ x) k = byte x k ∧ byte (x ++ x) (n + k) = byte x k := by
  constructor
  · refine BitVec.eq_of_getLsbD_eq fun j hj => ?_
    have h : 8 * k + j < 8 * n := by omega
    rw [getLsbD_byte, getLsbD_byte, BitVec.getLsbD_append, if_pos h]
  · refine BitVec.eq_of_getLsbD_eq fun j hj => ?_
    have h1 : ¬ 8 * (n + k) + j < 8 * n := by omega
    have h2 : 8 * (n + k) + j - 8 * n = 8 * k + j := by omega
    rw [getLsbD_byte, getLsbD_byte, BitVec.getLsbD_append, if_neg h1, h2]

/-! ## Bits of bytes -/

/-- The first `n` bits of a sequence of bytes. -/
def bitsOf (n : Nat) (f : Nat → BitVec 8) : Bits n :=
  fun i => (f (i.val / 8)).getLsbD (i.val % 8)

/-- A sequence of bits as bytes, completed with zeros. -/
def bytesOf (v : Bits n) : Nat → BitVec 8 :=
  fun b => BitVec.ofNat 8 (Nat.ofBits fun j : Fin 8 =>
    if h : 8 * b + j.val < n then v ⟨8 * b + j.val, h⟩ else false)

theorem getLsbD_bytesOf (v : Bits n) (b : Nat) {j : Nat} (hj : j < 8) :
    (bytesOf v b).getLsbD j = if h : 8 * b + j < n then v ⟨8 * b + j, h⟩ else false := by
  rw [bytesOf, BitVec.getLsbD_ofNat, Nat.testBit_ofBits_lt _ _ hj, decide_eq_true hj,
    Bool.true_and]

/-- The bits of the bytes of a vector are its own. -/
theorem bitsOf_bytesOf (v : Bits n) : bitsOf n (bytesOf v) = v := by
  funext i
  have hsplit : 8 * (i.val / 8) + i.val % 8 = i.val := Nat.div_add_mod _ _
  rw [bitsOf, getLsbD_bytesOf _ _ (Nat.mod_lt _ (by decide))]
  simp only [hsplit, i.isLt, dif_pos]

/-- The bytes of the bits of a whole number of bytes are these bytes. -/
theorem bytesOf_bitsOf {b : Nat} (hb : 8 * b + 8 ≤ n) : bytesOf (bitsOf n f) b = f b := by
  refine BitVec.eq_of_getLsbD_eq fun j hj => ?_
  have hlt : 8 * b + j < n := by omega
  have hdiv : (8 * b + j) / 8 = b := by omega
  have hmod : (8 * b + j) % 8 = j := by omega
  rw [getLsbD_bytesOf _ _ hj, dif_pos hlt, bitsOf]
  simp only [hdiv, hmod]

theorem bitsOf_congr (h : ∀ b, 8 * b < n → f b = g b) : bitsOf n f = bitsOf n g := by
  funext i
  rw [bitsOf, bitsOf, h (i.val / 8) (by have := i.isLt; omega)]

end Hw
