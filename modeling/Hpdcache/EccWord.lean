import Hpdcache.Lib.Bytes
import Hpdcache.Secded
import Hpdcache.Types

/-!
# Words of the data RAM

With ECC a RAM holds a word as the bytes of its data and a byte of check bits. The check byte is
written with the last byte of the data, and a word that is read is decoded.

* `HsiaoCode.encodeBytes`, `HsiaoCode.decodeBytes` — the code on bytes.
* `HsiaoCode.decodeBytes_of_flip` — a word with at most one bit flipped decodes to its data.
* `Cfg.ramWrite`, `Cfg.ramRead` — a word that is written by bytes, and a word that is read.
* `Cfg.Merges` — a write replaces the bytes that it enables, and no other, in what is read then.
* `Cfg.merges_of_whole`, `Cfg.exists_not_merges` — with ECC that holds of every word if and only if
  the bytes are enabled all together.
-/

namespace Hpdcache

open Hw

namespace HsiaoCode

variable {k r : Nat} (C : HsiaoCode k r)

/-- The bytes that a RAM holds for a word, with zeros above the check bits. -/
def encodeBytes (data : Nat → Byte) : Nat → Byte := bytesOf (C.encode (bitsOf k data))

/-- The bytes that are read from a RAM. -/
def decodeBytes (word : Nat → Byte) : Nat → Byte := bytesOf (C.decode (bitsOf (k + r) word)).data

variable {C} {data word word' : Nat → Byte}

/-- The data are in their place. -/
theorem encodeBytes_data {b : Nat} (hb : 8 * b + 8 ≤ k) : C.encodeBytes data b = data b := by
  refine BitVec.eq_of_getLsbD_eq fun j hj => ?_
  have hk : 8 * b + j < k := by omega
  have hlt : 8 * b + j < k + r := by omega
  have hdiv : (8 * b + j) / 8 = b := by omega
  have hmod : (8 * b + j) % 8 = j := by omega
  have hbit : C.encode (bitsOf k data) (Fin.castAdd r ⟨8 * b + j, hk⟩) =
      bitsOf k data ⟨8 * b + j, hk⟩ := by
    rw [C.encode_eq, Fin.append_left]
  rw [encodeBytes, getLsbD_bytesOf _ _ hj, dif_pos hlt]
  refine hbit.trans ?_
  simp only [bitsOf, hdiv, hmod]

theorem encodeBytes_congr (h : ∀ b, 8 * b < k → data b = word b) :
    C.encodeBytes data = C.encodeBytes word := by
  rw [encodeBytes, encodeBytes, bitsOf_congr h]

theorem decodeBytes_congr (h : ∀ b, 8 * b < k + r → word b = word' b) :
    C.decodeBytes word = C.decodeBytes word' := by
  rw [decodeBytes, decodeBytes, bitsOf_congr h]

/-- A word that is as the encoder gives it but for one byte, in which one bit may differ, decodes to
its data. -/
theorem decodeBytes_of_flip {b₀ j₀ : Nat} (h : ∀ b, 8 * b < k + r → b ≠ b₀ →
      word b = C.encodeBytes data b)
    (hflip : ∀ j, j ≠ j₀ → (word b₀).getLsbD j = (C.encodeBytes data b₀).getLsbD j) {b : Nat}
    (hb : 8 * b + 8 ≤ k) : C.decodeBytes word b = data b := by
  have hbits : bitsOf (k + r) (C.encodeBytes data) = C.encode (bitsOf k data) := by
    rw [encodeBytes, bitsOf_bytesOf]
  have hdist : hammingDist (C.encode (bitsOf k data)) (bitsOf (k + r) word) ≤ 1 := by
    rw [hammingDist, Finset.card_le_one_iff, ← hbits]
    -- the bits that differ are at the position of the flip
    have hpos : ∀ i : Fin (k + r), bitsOf (k + r) (C.encodeBytes data) i ≠ bitsOf (k + r) word i →
        i.val = 8 * b₀ + j₀ := by
      intro i hi
      by_contra hne
      apply hi
      show (C.encodeBytes data (i.val / 8)).getLsbD (i.val % 8) =
        (word (i.val / 8)).getLsbD (i.val % 8)
      by_cases hb₀ : i.val / 8 = b₀
      · rw [hb₀]
        exact (hflip _ (by omega)).symm
      · rw [h _ (by have := i.isLt; omega) hb₀]
    intro i j hi hj
    rw [Finset.mem_filter] at hi hj
    exact Fin.ext ((hpos i hi.2).trans (hpos j hj.2).symm)
  rw [decodeBytes, decode_data hdist, bytesOf_bitsOf hb]

end HsiaoCode

namespace Cfg

variable (c : Cfg)

/-- What the encoder of a word gives: its bytes, and the byte of the check bits behind them. -/
def eccEncode (data : Nat → Byte) : Nat → Byte :=
  if c.wordBytes = 4 then secded3932.encodeBytes data else secded7264.encodeBytes data

/-- What the decoder of a word gives. -/
def eccDecode (word : Nat → Byte) : Nat → Byte :=
  if c.wordBytes = 4 then secded3932.decodeBytes word else secded7264.decodeBytes word

variable {c} {data data' word word' : Nat → Byte} {b : Nat}

theorem eccEncode_data (hb : b < c.wordBytes) : c.eccEncode data b = data b := by
  unfold eccEncode
  rcases c.wordBytes_eq with h | h
  · rw [if_pos h]
    exact HsiaoCode.encodeBytes_data (by omega)
  · rw [if_neg (by omega)]
    exact HsiaoCode.encodeBytes_data (by omega)

theorem eccEncode_congr (h : ∀ b < c.wordBytes, data b = word b) :
    c.eccEncode data = c.eccEncode word := by
  unfold eccEncode
  rcases c.wordBytes_eq with hw | hw
  · rw [if_pos hw, if_pos hw]
    exact HsiaoCode.encodeBytes_congr fun b hb => h b (by omega)
  · rw [if_neg (by omega), if_neg (by omega)]
    exact HsiaoCode.encodeBytes_congr fun b hb => h b (by omega)

theorem eccDecode_congr (h : ∀ b ≤ c.wordBytes, word b = word' b) :
    c.eccDecode word = c.eccDecode word' := by
  unfold eccDecode
  rcases c.wordBytes_eq with hw | hw
  · rw [if_pos hw, if_pos hw]
    exact HsiaoCode.decodeBytes_congr fun b hb => h b (by omega)
  · rw [if_neg (by omega), if_neg (by omega)]
    exact HsiaoCode.decodeBytes_congr fun b hb => h b (by omega)

/-- A word that is as the encoder gives it but for one byte, in which one bit may differ, decodes to
its data. -/
theorem eccDecode_of_flip (b₀ j₀ : Nat)
    (h : ∀ b ≤ c.wordBytes, b ≠ b₀ → word b = c.eccEncode data b)
    (hflip : ∀ j, j ≠ j₀ → (word b₀).getLsbD j = (c.eccEncode data b₀).getLsbD j)
    (hb : b < c.wordBytes) : c.eccDecode word b = data b := by
  unfold eccDecode
  unfold eccEncode at h hflip
  rcases c.wordBytes_eq with hw | hw
  · rw [if_pos hw]
    rw [if_pos hw] at h hflip
    exact HsiaoCode.decodeBytes_of_flip (fun b hb => h b (by omega)) hflip (by omega)
  · have hw4 : ¬ c.wordBytes = 4 := by omega
    rw [if_neg hw4]
    rw [if_neg hw4] at h hflip
    exact HsiaoCode.decodeBytes_of_flip (fun b hb => h b (by omega)) hflip (by omega)

/-- A word as the encoder gives it decodes to its data. -/
theorem eccDecode_of_encode (h : ∀ b ≤ c.wordBytes, word b = c.eccEncode data b)
    (hb : b < c.wordBytes) : c.eccDecode word b = data b :=
  eccDecode_of_flip 0 0 (fun b hb _ => h b hb)
    (fun j _ => by rw [h 0 (Nat.zero_le _)]) hb

/-! ## Words that are written and read -/

variable (c)

/-- Bytes of a word in the RAM. -/
def ramWordBytes : Nat := if c.eccEn then c.wordBytes + 1 else c.wordBytes

/-- What the RAM is given for a word. -/
def ramData (data : Nat → Byte) : Nat → Byte := if c.eccEn then c.eccEncode data else data

/-- What the RAM gives for a word. -/
def ramRead (word : Nat → Byte) : Nat → Byte := if c.eccEn then c.eccDecode word else word

/-- A word after a write. The check bits take the enable of the last byte of data. -/
def ramWrite (word data : Nat → Byte) (be : Nat → Bool) : Nat → Byte :=
  fun l => if be (min l (c.wordBytes - 1)) then c.ramData data l else word l

/-- A write of the word replaces the bytes that are enabled in what is read of it, and no other. -/
def Merges (word data : Nat → Byte) (be : Nat → Bool) : Prop :=
  ∀ l < c.wordBytes,
    c.ramRead (c.ramWrite word data be) l = if be l then data l else c.ramRead word l

instance (word data : Nat → Byte) (be : Nat → Bool) : Decidable (c.Merges word data be) :=
  inferInstanceAs (Decidable (∀ l < c.wordBytes, _))

/-- The bytes of a word are enabled as its last one is, whose enable the check bits take: all of
them, or none. -/
def Whole (be : Nat → Bool) : Prop := ∀ l < c.wordBytes, be l = be (c.wordBytes - 1)

instance (be : Nat → Bool) : Decidable (c.Whole be) :=
  inferInstanceAs (Decidable (∀ l < c.wordBytes, _))

/-- The bytes of a request are enabled by words. -/
def WholeWords (be : Nat → Bool) : Prop :=
  ∀ j < c.reqWords, c.Whole fun l => be (j * c.wordBytes + l)

instance (be : Nat → Bool) : Decidable (c.WholeWords be) :=
  inferInstanceAs (Decidable (∀ j < c.reqWords, _))

variable {c} {be be' : Nat → Bool}

theorem min_lane {l : Nat} (h : l < c.wordBytes) : min l (c.wordBytes - 1) = l :=
  Nat.min_eq_left (by omega)

theorem min_lane_lt (c : Cfg) (l : Nat) : min l (c.wordBytes - 1) < c.wordBytes := by
  have := c.wordBytes_pos
  omega

theorem ramRead_congr (h : ∀ l < c.ramWordBytes, word l = word' l) {l : Nat}
    (hl : l < c.wordBytes) : c.ramRead word l = c.ramRead word' l := by
  unfold ramRead
  unfold ramWordBytes at h
  cases he : c.eccEn with
  | false =>
    rw [he] at h
    simp only [Bool.false_eq_true, if_false] at h ⊢
    exact h l hl
  | true =>
    rw [he] at h
    simp only [if_true] at h ⊢
    rw [eccDecode_congr fun b hb => h b (by omega)]

theorem ramData_congr (h : ∀ l < c.wordBytes, data l = word l) {l : Nat}
    (hl : l < c.ramWordBytes) : c.ramData data l = c.ramData word l := by
  unfold ramData
  unfold ramWordBytes at hl
  cases he : c.eccEn with
  | false =>
    rw [he] at hl
    simp only [Bool.false_eq_true, if_false] at hl ⊢
    exact h l hl
  | true =>
    simp only [if_true]
    rw [eccEncode_congr h]

/-- A word that was written whole is read as it was given. -/
theorem ramRead_of_data (h : ∀ l < c.ramWordBytes, word l = c.ramData data l) {l : Nat}
    (hl : l < c.wordBytes) : c.ramRead word l = data l := by
  rw [ramRead_congr h hl]
  unfold ramRead ramData
  cases he : c.eccEn with
  | false => rfl
  | true =>
    simp only [if_true]
    exact eccDecode_of_encode (fun _ _ => rfl) hl

theorem ramWrite_congr (hword : ∀ l < c.ramWordBytes, word l = word' l)
    (hdata : ∀ l < c.wordBytes, data l = data' l) (hbe : ∀ l < c.wordBytes, be l = be' l) {l : Nat}
    (hl : l < c.ramWordBytes) : c.ramWrite word data be l = c.ramWrite word' data' be' l := by
  unfold ramWrite
  rw [hbe _ (min_lane_lt c l), ramData_congr hdata hl, hword l hl]

theorem merges_congr (hword : ∀ l < c.ramWordBytes, word l = word' l)
    (hdata : ∀ l < c.wordBytes, data l = data' l) (hbe : ∀ l < c.wordBytes, be l = be' l) :
    c.Merges word data be ↔ c.Merges word' data' be' := by
  unfold Merges
  refine forall₂_congr fun l hl => ?_
  rw [ramRead_congr (fun l hl => ramWrite_congr hword hdata hbe hl) hl, ramRead_congr hword hl,
    hdata l hl, hbe l hl]

/-- A RAM without a code merges every write. -/
theorem merges_of_not_ecc (he : c.eccEn = false) : c.Merges word data be := by
  intro l hl
  simp [ramRead, ramWrite, ramData, he, min_lane hl]

/-- A write of the whole word. -/
theorem merges_of_all (h : ∀ l < c.wordBytes, be l = true) : c.Merges word data be := by
  intro l hl
  rw [h l hl, if_pos rfl]
  apply ramRead_of_data _ hl
  intro j _
  rw [ramWrite, h _ (min_lane_lt c j), if_pos rfl]

/-- No write of the word. -/
theorem merges_of_none (h : ∀ l < c.wordBytes, be l = false) : c.Merges word data be := by
  intro l hl
  rw [h l hl, if_neg Bool.false_ne_true]
  apply ramRead_congr _ hl
  intro j _
  rw [ramWrite, h _ (min_lane_lt c j), if_neg Bool.false_ne_true]

theorem merges_of_whole (h : c.Whole be) : c.Merges word data be := by
  cases hlast : be (c.wordBytes - 1) with
  | true => exact merges_of_all fun l hl => (h l hl).trans hlast
  | false => exact merges_of_none fun l hl => (h l hl).trans hlast

/-- A write that leaves the check bits of another word behind does not merge. The two words differ
in one bit, which the decoder gives back as it was, or as it was to be. -/
theorem not_merges_of_flip (he : c.eccEn = true) {l : Nat} (hl : l < c.wordBytes)
    (hbe : be l ≠ be (c.wordBytes - 1)) (hsame : ∀ j < c.wordBytes, j ≠ l → data j = data' j)
    (hflip : data l = data' l ^^^ 1#8) : ¬ c.Merges (c.eccEncode data') data be := by
  intro h
  have hbit : ∀ j, j ≠ 0 → (data l).getLsbD j = (data' l).getLsbD j := by
    intro j hj
    rw [hflip, BitVec.getLsbD_xor, BitVec.getLsbD_one]
    simp [hj]
  have hne : data l ≠ data' l := by
    intro heq
    have h0 := congrArg (fun x : Byte => x.getLsbD 0) (hflip.symm.trans heq)
    rw [BitVec.getLsbD_xor, BitVec.getLsbD_one] at h0
    simp at h0
  have henc : ∀ b < c.wordBytes, b ≠ l → c.eccEncode data b = c.eccEncode data' b := by
    intro b hb hbl
    rw [eccEncode_data hb, eccEncode_data hb, hsame b hb hbl]
  have hread := h l hl
  have hold : c.ramRead (c.eccEncode data') l = data' l := by
    rw [ramRead, if_pos he]
    exact eccDecode_of_encode (fun _ _ => rfl) hl
  rw [hold, ramRead, if_pos he] at hread
  have hword : ∀ b, c.ramWrite (c.eccEncode data') data be b =
      if be (min b (c.wordBytes - 1)) then c.eccEncode data b else c.eccEncode data' b := by
    intro b
    rw [ramWrite, ramData, if_pos he]
  have hlane : ∀ b ≤ c.wordBytes, ¬ b < c.wordBytes →
      min b (c.wordBytes - 1) = c.wordBytes - 1 := by
    intro b hb hnot
    omega
  cases hlast : be (c.wordBytes - 1) with
  | true =>
    -- the check bits are those of the data, and the byte is not written
    have hbl : be l = false := by rwa [hlast, ne_eq, Bool.not_eq_true] at hbe
    have hdec : c.eccDecode (c.ramWrite (c.eccEncode data') data be) l = data l := by
      apply eccDecode_of_flip l 0 _ _ hl
      · intro b hb hne
        rw [hword]
        by_cases hlt : b < c.wordBytes
        · rw [henc b hlt hne, ite_self]
        · rw [hlane b hb hlt, hlast, if_pos rfl]
      · intro j hj
        rw [hword, min_lane hl, hbl, if_neg Bool.false_ne_true, eccEncode_data hl,
          eccEncode_data hl, hbit j hj]
    rw [hdec, hbl, if_neg Bool.false_ne_true] at hread
    exact hne hread
  | false =>
    -- the check bits are those of the old word, and the byte is written
    have hbl : be l = true := by rwa [hlast, ne_eq, Bool.not_eq_false] at hbe
    have hdec : c.eccDecode (c.ramWrite (c.eccEncode data') data be) l = data' l := by
      apply eccDecode_of_flip l 0 _ _ hl
      · intro b hb hne
        rw [hword]
        by_cases hlt : b < c.wordBytes
        · rw [henc b hlt hne, ite_self]
        · rw [hlane b hb hlt, hlast, if_neg Bool.false_ne_true]
      · intro j hj
        rw [hword, min_lane hl, hbl, if_pos rfl, eccEncode_data hl, eccEncode_data hl, hbit j hj]
    rw [hdec, hbl, if_pos rfl] at hread
    exact hne hread.symm

/-- **Byte enables with ECC.** Data of which some bytes are enabled and others are not do not
replace just the enabled ones in every word. -/
theorem exists_not_merges (he : c.eccEn = true) (h : ¬ c.Whole be) (data : Nat → Byte) :
    ∃ old, ¬ c.Merges (c.eccEncode old) data be := by
  unfold Whole at h
  push Not at h
  obtain ⟨l, hl, hne⟩ := h
  refine ⟨Function.update data l (data l ^^^ 1#8), not_merges_of_flip he hl hne ?_ ?_⟩
  · intro j _ hj
    rw [Function.update_of_ne hj]
  · rw [Function.update_self, BitVec.xor_assoc, BitVec.xor_self, BitVec.xor_zero]

end Cfg

end Hpdcache
