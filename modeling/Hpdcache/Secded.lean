import Hpdcache.Lib.Secded

/-!
# Error correcting codes of the RAMs

The encoder of a code writes the check bits next to the data, each the XOR of the bits under a mask.
The decoder has the same masks with the check bit itself, and inverts the data bit whose column is
the syndrome.

* `HsiaoCode` — the constants of an encoder and its decoder, with what makes them a code.
* `HsiaoCode.syndrome_encode` — the encoder writes codewords.
* `HsiaoCode.decode_data`, `HsiaoCode.decode_cor`, `HsiaoCode.decode_unc` — what the decoder says of
  a word with errors.
* `secdedInst_decode` — the codes of all the widths there are.
-/

namespace Hpdcache

open Hw Matrix

/-- The constants of an encoder and its decoder: the masks of the check bits, those of the syndrome
bits, and the syndrome that corrects each data bit. -/
structure SecdedTable (k r : Nat) where
  enc : Vector Nat r
  dec : Vector Nat r
  col : Vector Nat k

/-- A table whose encoder and decoder belong together. -/
structure HsiaoCode (k r : Nat) extends SecdedTable k r where
  enc_lt : ∀ (j : Fin r) (i : Fin (k + r)), (enc.get j).testBit i = true → i.val < k
  dec_eq : ∀ (j : Fin r) (i : Fin (k + r)),
    (dec.get j).testBit i = ((enc.get j).testBit i ^^ decide (i = Fin.natAdd k j))
  col_eq : ∀ (i : Fin k) (j : Fin r), (col.get i).testBit j = (dec.get j).testBit i
  odd : ∀ i : Fin (k + r), redXor (fun j : Fin r => (dec.get j).testBit i) = true
  distinct : ∀ i i' : Fin (k + r),
    (∀ j : Fin r, (dec.get j).testBit i = (dec.get j).testBit i') → i = i'

/-- What a decoder returns. The flags `cor` and `unc` are the bits of `err_o`. -/
structure SecdedWord (k r : Nat) where
  data : Bits k
  syndrome : Bits r
  cor : Bool
  unc : Bool

namespace HsiaoCode

variable {k r : Nat} (C : HsiaoCode k r)

/-- The check bits are assigned in turn, each from the word so far. -/
def encode (data : Bits k) : Bits (k + r) :=
  (List.finRange r).foldl
    (fun d j => Function.update d (Fin.natAdd k j)
      (redXor fun i => d i && (C.enc.get j).testBit i))
    (Fin.append data fun _ => false)

def syndrome (word : Bits (k + r)) : Bits r :=
  fun j => redXor fun i => word i && (C.dec.get j).testBit i

def decode (word : Bits (k + r)) : SecdedWord k r :=
  let syndrome := C.syndrome word
  let cor := redXor syndrome
  { data := fun i =>
      decide (∀ j : Fin r, syndrome j = (C.col.get i).testBit j) ^^ word (Fin.castAdd r i)
    syndrome := syndrome
    cor := cor
    unc := !cor && any syndrome }

/-! ## The encoder writes codewords -/

/-- A check bit, from the data alone. -/
def check (data : Bits k) (j : Fin r) : Bool :=
  redXor fun i : Fin (k + r) => Fin.append data (fun _ => false) i && (C.enc.get j).testBit i

/-- A mask of the encoder has no check bit, so that a check bit depends on the data only. -/
theorem redXor_enc {data : Bits k} {d : Bits (k + r)} (h : ∀ i, d (Fin.castAdd r i) = data i)
    (j : Fin r) : (redXor fun i => d i && (C.enc.get j).testBit i) = C.check data j := by
  unfold check
  congr 1
  funext i
  cases hm : (C.enc.get j).testBit i with
  | false => simp
  | true =>
    have hi : i = Fin.castAdd r ⟨i, C.enc_lt j i hm⟩ := rfl
    rw [hi, h, Fin.append_left]

/-- The check bits that the encoder has assigned, and the ones it has not. -/
theorem foldl_check (data : Bits k) (l : List (Fin r)) (d : Bits (k + r))
    (h : ∀ i, d (Fin.castAdd r i) = data i) :
    l.foldl (fun d j => Function.update d (Fin.natAdd k j)
      (redXor fun i => d i && (C.enc.get j).testBit i)) d =
      Fin.append data fun j => if j ∈ l then C.check data j else d (Fin.natAdd k j) := by
  induction l generalizing d with
  | nil =>
    funext i
    refine Fin.addCases (fun a => ?_) (fun j => ?_) i
    · simp [h]
    · simp
  | cons j l ih =>
    have hd : ∀ i, Function.update d (Fin.natAdd k j) (C.check data j) (Fin.castAdd r i) =
        data i := by
      intro i
      have hne : Fin.castAdd r i ≠ Fin.natAdd k j := by
        rw [ne_eq, Fin.ext_iff, Fin.val_castAdd, Fin.val_natAdd]
        omega
      rw [Function.update_of_ne hne, h]
    rw [List.foldl_cons, C.redXor_enc h, ih _ hd]
    congr 1
    funext j'
    by_cases hmem : j' ∈ l
    · simp [hmem]
    · by_cases hj : j' = j
      · simp [hj]
      · simp [hmem, hj]

/-- The data in its place, and the check bits next to it. -/
theorem encode_eq (data : Bits k) : C.encode data = Fin.append data (C.check data) := by
  rw [encode, C.foldl_check data _ _ fun i => Fin.append_left _ _ i]
  simp

/-- The check matrix of the decoder. -/
def matrix : Matrix (Fin r) (Fin (k + r)) (ZMod 2) :=
  .of fun j i => toZ ((C.dec.get j).testBit i)

theorem hsiao : Hsiao C.matrix where
  col_injective i i' h := by
    apply C.distinct i i'
    intro j
    exact toZ_injective (congrFun h j)
  col_odd i := by
    have hodd := toZ_eq_one.2 (C.odd i)
    rw [toZ_redXor] at hodd
    exact hodd

/-- The syndrome is the product with the check matrix. -/
theorem toZ_syndrome (word : Bits (k + r)) :
    (fun j => toZ (C.syndrome word j)) = C.matrix *ᵥ fun i => toZ (word i) := by
  funext j
  rw [syndrome, toZ_redXor, Matrix.mulVec, dotProduct]
  apply Finset.sum_congr rfl
  intro i _
  rw [toZ_and, mul_comm]
  rfl

/-- The encoder writes codewords. -/
theorem syndrome_encode (data : Bits k) (j : Fin r) : C.syndrome (C.encode data) j = false := by
  have hbit (i : Fin (k + r)) : (C.encode data i && (C.dec.get j).testBit i) =
      ((C.encode data i && (C.enc.get j).testBit i) ^^
        (decide (i = Fin.natAdd k j) && C.check data j)) := by
    rw [C.dec_eq j i]
    by_cases hi : i = Fin.natAdd k j
    · have henc : C.encode data i = C.check data j := by
        rw [C.encode_eq, hi, Fin.append_right]
      rw [henc, decide_eq_true hi]
      cases C.check data j <;> simp
    · simp [hi]
  have hdata : ∀ i, C.encode data (Fin.castAdd r i) = data i := by
    intro i
    rw [C.encode_eq, Fin.append_left]
  unfold syndrome
  simp only [hbit]
  rw [redXor_xor, C.redXor_enc hdata, redXor_single, Bool.xor_self]

theorem mulVec_encode (data : Bits k) :
    (C.matrix *ᵥ fun i => toZ (C.encode data i)) = 0 := by
  rw [← C.toZ_syndrome]
  funext j
  rw [C.syndrome_encode]
  rfl

/-! ## What the decoder says of a word -/

variable {C}

/-- One error is corrected. -/
theorem decode_data {data : Bits k} {word : Bits (k + r)}
    (h : hammingDist (C.encode data) word ≤ 1) : (C.decode word).data = data := by
  funext i
  have hcol : (∀ j : Fin r, C.syndrome word j = (C.col.get i).testBit j) ↔
      word (Fin.castAdd r i) ≠ data i := by
    have hcor := C.hsiao.correct (C.mulVec_encode data) (y := fun i => toZ (word i))
      (by rw [hammingDist_toZ]; exact h) (Fin.castAdd r i)
    rw [← C.toZ_syndrome, toZ_injective.ne_iff, C.encode_eq, Fin.append_left] at hcor
    rw [← hcor, funext_iff]
    apply forall_congr'
    intro j
    rw [C.col_eq i j]
    exact toZ_injective.eq_iff.symm
  show (decide _ ^^ word (Fin.castAdd r i)) = data i
  by_cases heq : word (Fin.castAdd r i) = data i
  · rw [decide_eq_false (fun hall => hcol.1 hall heq), Bool.false_xor, heq]
  · rw [decide_eq_true (hcol.2 heq), Bool.true_xor]
    exact (Bool.eq_not_of_ne (Ne.symm heq)).symm

/-- The first error flag is the parity of the number of errors. -/
theorem decode_cor (data : Bits k) (word : Bits (k + r)) :
    (C.decode word).cor = true ↔ Odd (hammingDist (C.encode data) word) := by
  have hsum := C.hsiao.sum_syndrome (C.mulVec_encode data) fun i => toZ (word i)
  rw [← C.toZ_syndrome, ← toZ_redXor, hammingDist_toZ] at hsum
  rw [← ZMod.natCast_eq_one_iff_odd, ← hsum, toZ_eq_one]
  rfl

/-- With less than four errors, the second flag tells two of them. -/
theorem decode_unc {data : Bits k} {word : Bits (k + r)}
    (h : hammingDist (C.encode data) word < 4) :
    (C.decode word).unc = true ↔ hammingDist (C.encode data) word = 2 := by
  have hsyn : any (C.syndrome word) = false ↔ hammingDist (C.encode data) word = 0 := by
    have hzero := C.hsiao.syndrome_eq_zero (C.mulVec_encode data) (y := fun i => toZ (word i))
      (by rw [hammingDist_toZ]; exact h)
    rw [← C.toZ_syndrome, ← hammingDist_eq_zero (x := fun i => toZ (C.encode data i)),
      hammingDist_toZ, funext_iff] at hzero
    rw [← hzero, any_eq_false]
    exact forall_congr' fun j => toZ_eq_zero.symm
  have hcor := decode_cor (C := C) data word
  show (!(C.decode word).cor && any (C.syndrome word)) = true ↔ _
  rw [Bool.and_eq_true, Bool.not_eq_true', ← Bool.not_eq_true, hcor, ← Bool.not_eq_false, hsyn]
  constructor
  · rintro ⟨hodd, hne⟩
    rw [Nat.not_odd_iff_even] at hodd
    obtain ⟨m, hm⟩ := hodd
    omega
  · intro h2
    rw [h2]
    decide

end HsiaoCode

/-! ## The codes -/

def secded3629 : HsiaoCode 29 7 where
  enc :=
    #v[0x00606BD25, 0x01EBA8050, 0x0013D89AA, 0x011234ED1, 0x002C1323B, 0x00DCC624C, 0x018505586]
  dec :=
    #v[0x02606BD25, 0x05EBA8050, 0x0813D89AA, 0x111234ED1, 0x202C1323B, 0x40DCC624C, 0x818505586]
  col :=
    #v[0x19, 0x54, 0x61, 0x34, 0x1A, 0x15, 0x2A, 0x4C, 0x45, 0x38, 0x49, 0x0D, 0x51, 0x31, 0x68,
      0x07, 0x1C, 0x0B, 0x25, 0x26, 0x46, 0x0E, 0x70, 0x32, 0x2C, 0x13, 0x23, 0x62, 0x4A]
  enc_lt := by decide +kernel
  dec_eq := by decide +kernel
  col_eq := by decide +kernel
  odd := by decide +kernel
  distinct := by decide +kernel

def secded3932 : HsiaoCode 32 7 where
  enc :=
    #v[0x002606BD25, 0x00DEBA8050, 0x00413D89AA, 0x0031234ED1, 0x00C2C1323B, 0x002DCC624C,
      0x0098505586]
  dec :=
    #v[0x012606BD25, 0x02DEBA8050, 0x04413D89AA, 0x0831234ED1, 0x10C2C1323B, 0x202DCC624C,
      0x4098505586]
  col :=
    #v[0x19, 0x54, 0x61, 0x34, 0x1A, 0x15, 0x2A, 0x4C, 0x45, 0x38, 0x49, 0x0D, 0x51, 0x31, 0x68,
      0x07, 0x1C, 0x0B, 0x25, 0x26, 0x46, 0x0E, 0x70, 0x32, 0x2C, 0x13, 0x23, 0x62, 0x4A, 0x29,
      0x16, 0x52]
  enc_lt := by decide +kernel
  dec_eq := by decide +kernel
  col_eq := by decide +kernel
  odd := by decide +kernel
  distinct := by decide +kernel

def secded5548 : HsiaoCode 48 7 where
  enc :=
    #v[0x00EEC800007FFF, 0x00F35801FF801F, 0x003FE87E0781E1, 0x00F5B38E388E22, 0x004FBDB2C93244,
      0x00FE76D5525488, 0x0099FF69A46910]
  dec :=
    #v[0x01EEC800007FFF, 0x02F35801FF801F, 0x043FE87E0781E1, 0x08F5B38E388E22, 0x104FBDB2C93244,
      0x20FE76D5525488, 0x4099FF69A46910]
  col :=
    #v[0x07, 0x0B, 0x13, 0x23, 0x43, 0x0D, 0x15, 0x25, 0x45, 0x19, 0x29, 0x49, 0x31, 0x51, 0x61,
      0x0E, 0x16, 0x26, 0x46, 0x1A, 0x2A, 0x4A, 0x32, 0x52, 0x62, 0x1C, 0x2C, 0x4C, 0x34, 0x54,
      0x64, 0x38, 0x58, 0x68, 0x70, 0x57, 0x7A, 0x7C, 0x67, 0x5D, 0x5E, 0x37, 0x3D, 0x75, 0x6E,
      0x2F, 0x3B, 0x6B]
  enc_lt := by decide +kernel
  dec_eq := by decide +kernel
  col_eq := by decide +kernel
  odd := by decide +kernel
  distinct := by decide +kernel

def secded7264 : HsiaoCode 64 8 where
  enc :=
    #v[0x00B9000000001FFFFF, 0x005E00000FFFE0003F, 0x0067003FF003E007C1, 0x00CD0FC0F03C207842,
      0x00B671C711C4438884, 0x00B5B65926488C9108, 0x00CBDAAA4A91152210, 0x007AED348D221A4420]
  dec :=
    #v[0x01B9000000001FFFFF, 0x025E00000FFFE0003F, 0x0467003FF003E007C1, 0x08CD0FC0F03C207842,
      0x10B671C711C4438884, 0x20B5B65926488C9108, 0x40CBDAAA4A91152210, 0x807AED348D221A4420]
  col :=
    #v[0x07, 0x0B, 0x13, 0x23, 0x43, 0x83, 0x0D, 0x15, 0x25, 0x45, 0x85, 0x19, 0x29, 0x49, 0x89,
      0x31, 0x51, 0x91, 0x61, 0xA1, 0xC1, 0x0E, 0x16, 0x26, 0x46, 0x86, 0x1A, 0x2A, 0x4A, 0x8A,
      0x32, 0x52, 0x92, 0x62, 0xA2, 0xC2, 0x1C, 0x2C, 0x4C, 0x8C, 0x34, 0x54, 0x94, 0x64, 0xA4,
      0xC4, 0x38, 0x58, 0x98, 0x68, 0xA8, 0xC8, 0x70, 0xB0, 0xD0, 0xE0, 0x6D, 0xD6, 0x3E, 0xCB,
      0xB3, 0xB5, 0xCE, 0x79]
  enc_lt := by decide +kernel
  dec_eq := by decide +kernel
  col_eq := by decide +kernel
  odd := by decide +kernel
  distinct := by decide +kernel

def primSecded3629Enc : Bits 29 → Bits 36 := secded3629.encode
def primSecded3629Dec : Bits 36 → SecdedWord 29 7 := secded3629.decode
def primSecded3932Enc : Bits 32 → Bits 39 := secded3932.encode
def primSecded3932Dec : Bits 39 → SecdedWord 32 7 := secded3932.decode
def primSecded5548Enc : Bits 48 → Bits 55 := secded5548.encode
def primSecded5548Dec : Bits 55 → SecdedWord 48 7 := secded5548.decode
def primSecded7264Enc : Bits 64 → Bits 72 := secded7264.encode
def primSecded7264Dec : Bits 72 → SecdedWord 64 8 := secded7264.decode

def isWidthValid : Nat → Bool
  | 29 => true
  | 32 => true
  | 48 => true
  | 64 => true
  | _ => false

def getSyndWidth : Nat → Nat
  | 29 => 7
  | 32 => 7
  | 48 => 7
  | 64 => 8
  | _ => 0

def getFullWidth (width : Nat) : Nat := width + getSyndWidth width

/-- The encoder that is instantiated for a width. -/
def secdedInstEnc : (width : Nat) → Option (Bits width → Bits (getFullWidth width))
  | 29 => some primSecded3629Enc
  | 32 => some primSecded3932Enc
  | 48 => some primSecded5548Enc
  | 64 => some primSecded7264Enc
  | _ => none

def secdedInstDec : (width : Nat) →
    Option (Bits (getFullWidth width) → SecdedWord width (getSyndWidth width))
  | 29 => some primSecded3629Dec
  | 32 => some primSecded3932Dec
  | 48 => some primSecded5548Dec
  | 64 => some primSecded7264Dec
  | _ => none

/-- The code of a width, when there is one. -/
theorem secdedInst_eq {width : Nat} (h : isWidthValid width = true) :
    ∃ C : HsiaoCode width (getSyndWidth width),
      secdedInstEnc width = some C.encode ∧ secdedInstDec width = some C.decode := by
  unfold isWidthValid at h
  split at h
  · exact ⟨secded3629, rfl, rfl⟩
  · exact ⟨secded3932, rfl, rfl⟩
  · exact ⟨secded5548, rfl, rfl⟩
  · exact ⟨secded7264, rfl, rfl⟩
  · contradiction

/-- **The codes of all the widths there are.** A word that differs from an encoded one in at most
one bit decodes to its data, the first flag is the parity of the number of bits that differ, and up
to three of them the second flag tells that there are two. -/
theorem secdedInst_decode {width : Nat} (h : isWidthValid width = true) :
    ∃ enc dec, secdedInstEnc width = some enc ∧ secdedInstDec width = some dec ∧
      ∀ data word, (hammingDist (enc data) word ≤ 1 → (dec word).data = data) ∧
        ((dec word).cor = true ↔ Odd (hammingDist (enc data) word)) ∧
        (hammingDist (enc data) word < 4 →
          ((dec word).unc = true ↔ hammingDist (enc data) word = 2)) := by
  obtain ⟨C, henc, hdec⟩ := secdedInst_eq h
  refine ⟨C.encode, C.decode, henc, hdec, fun data word => ⟨?_, ?_, ?_⟩⟩
  · exact HsiaoCode.decode_data
  · exact HsiaoCode.decode_cor data word
  · exact HsiaoCode.decode_unc

theorem secdedInst_decode_64 :
    ∃ enc dec, secdedInstEnc 64 = some enc ∧ secdedInstDec 64 = some dec ∧
      ∀ data word, (hammingDist (enc data) word ≤ 1 → (dec word).data = data) ∧
        ((dec word).cor = true ↔ Odd (hammingDist (enc data) word)) ∧
        (hammingDist (enc data) word < 4 →
          ((dec word).unc = true ↔ hammingDist (enc data) word = 2)) :=
  secdedInst_decode rfl

end Hpdcache
