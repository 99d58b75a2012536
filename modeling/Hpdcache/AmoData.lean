import Hpdcache.AmoError
import Hpdcache.DataRams
import Hpdcache.Lrsc
import Hpdcache.Lib.Bytes
import Hpdcache.Lib.Lanes

/-!
# The local copy after an atomic operation

The handler forwards an atomic operation to the memory, with a command of the memory interface, and
computes the result a second time for the copy that is in the cache. This file compares the two.

* `MemAtomic.apply` — what the memory computes for a command.
* `Uncached.memExec` — the content of the memory after the command that the handler sends.
* `amo_eq_apply`, `amo_extend` — the unit of the handler computes the same, on 8 and on 4 bytes.
* `Uncached.dataRamNext_of_ownsData` — the bytes written in the data RAM are those of the memory,
  and the others stay, when the RAM has no code.
* `Uncached.copied_iff` — when they are with ECC: not with a stale merge, and not with sparse
  enables.
-/

namespace Hpdcache

open Hw

/-! ## Commands of the memory interface -/

namespace MemAtomic

variable {w : Nat}

/-- The value that the memory writes, from the old one and the operand. -/
def apply : MemAtomic → BitVec w → BitVec w → BitVec w
  | add, old, d => old + d
  | clr, old, d => old &&& ~~~d
  | set, old, d => old ||| d
  | eor, old, d => old ^^^ d
  | smax, old, d => if d.slt old then old else d
  | smin, old, d => if d.slt old then d else old
  | umax, old, d => if d.ult old then old else d
  | umin, old, d => if d.ult old then d else old
  | swap, _, d => d
  | ldex, old, _ => old
  | stex, _, d => d

end MemAtomic

/-- The command sent for an operation. -/
def ReqOp.memAtomic : ReqOp → MemAtomic
  | .amoLr => .ldex
  | .amoSc => .stex
  | .amoSwap => .swap
  | .amoAdd => .add
  | .amoAnd => .clr
  | .amoOr => .set
  | .amoXor => .eor
  | .amoMax => .smax
  | .amoMaxu => .umax
  | .amoMin => .smin
  | .amoMinu => .umin
  | _ => .add

/-- The operand sent for an operation: an AND is sent as a clear. -/
def ReqOp.memOperand {w : Nat} (op : ReqOp) (d : BitVec w) : BitVec w :=
  if op = .amoAnd then ~~~d else d

namespace Uncached

variable {c : Cfg}

/-! ## The unit of the handler -/

/-- On double words the unit computes what the memory does. -/
theorem amo_eq_apply {op : ReqOp} (h : op.isAmo = true) (ld st : BitVec 64) :
    amo op ld st = op.memAtomic.apply ld (op.memOperand st) := by
  cases op <;> first | exact absurd h (by decide) | skip
  all_goals simp [amo, ReqOp.memAtomic, ReqOp.memOperand, MemAtomic.apply]

/-- The extension of a word for the unit. -/
def extend (op : ReqOp) (x : BitVec 32) : BitVec 64 :=
  if amoNeedSignExtend op then x.signExtend 64 else x.zeroExtend 64

theorem extract_extend (op : ReqOp) (x : BitVec 32) : (extend op x).extractLsb' 0 32 = x := by
  refine BitVec.eq_of_getLsbD_eq fun j hj => ?_
  have h64 : j < 64 := by omega
  unfold extend
  split_ifs
  · rw [BitVec.getLsbD_extractLsb', BitVec.getLsbD_signExtend]
    simp [hj, h64]
  · rw [BitVec.getLsbD_extractLsb', BitVec.getLsbD_setWidth]
    simp [hj, h64]

theorem extract_add (x y : BitVec 64) :
    (x + y).extractLsb' 0 32 = x.extractLsb' 0 32 + y.extractLsb' 0 32 := by
  refine BitVec.eq_of_toNat_eq ?_
  simp only [BitVec.extractLsb'_toNat, BitVec.toNat_add, Nat.shiftRight_zero]
  omega

theorem slt_signExtend (x y : BitVec 32) : (x.signExtend 64).slt (y.signExtend 64) = x.slt y := by
  simp only [BitVec.slt_eq_decide, BitVec.toInt_signExtend_of_le (by decide : 32 ≤ 64)]

theorem ult_zeroExtend (x y : BitVec 32) : (x.zeroExtend 64).ult (y.zeroExtend 64) = x.ult y := by
  have hx := x.isLt
  have hy := y.isLt
  simp only [BitVec.ult, BitVec.zeroExtend, BitVec.toNat_setWidth]
  rw [Nat.mod_eq_of_lt (by omega), Nat.mod_eq_of_lt (by omega)]

/-- On words the unit computes on extended operands what the memory computes. -/
theorem amo_extend {op : ReqOp} (h : op.isAmo = true) (ld st : BitVec 32) :
    (amo op (extend op ld) (extend op st)).extractLsb' 0 32 =
      op.memAtomic.apply ld (op.memOperand st) := by
  have hl := extract_extend op ld
  have hs := extract_extend op st
  cases op <;> first | exact absurd h (by decide) | skip
  case amoLr | amoSc | amoSwap => assumption
  case amoAdd =>
    change (extend .amoAdd ld + extend .amoAdd st).extractLsb' 0 32 = ld + st
    rw [extract_add, hl, hs]
  case amoAnd =>
    change (extend .amoAnd ld &&& extend .amoAnd st).extractLsb' 0 32 = ld &&& ~~~ ~~~ st
    rw [BitVec.extractLsb'_and, hl, hs, BitVec.not_not]
  case amoOr =>
    change (extend .amoOr ld ||| extend .amoOr st).extractLsb' 0 32 = ld ||| st
    rw [BitVec.extractLsb'_or, hl, hs]
  case amoXor =>
    change (extend .amoXor ld ^^^ extend .amoXor st).extractLsb' 0 32 = ld ^^^ st
    rw [BitVec.extractLsb'_xor, hl, hs]
  case amoMax =>
    change (if (st.signExtend 64).slt (ld.signExtend 64) then extend .amoMax ld
      else extend .amoMax st).extractLsb' 0 32 = if st.slt ld then ld else st
    rw [slt_signExtend, apply_ite (BitVec.extractLsb' 0 32), hl, hs]
  case amoMaxu =>
    change (if (st.zeroExtend 64).ult (ld.zeroExtend 64) then extend .amoMaxu ld
      else extend .amoMaxu st).extractLsb' 0 32 = if st.ult ld then ld else st
    rw [ult_zeroExtend, apply_ite (BitVec.extractLsb' 0 32), hl, hs]
  case amoMin =>
    change (if (st.signExtend 64).slt (ld.signExtend 64) then extend .amoMin st
      else extend .amoMin ld).extractLsb' 0 32 = if st.slt ld then st else ld
    rw [slt_signExtend, apply_ite (BitVec.extractLsb' 0 32), hl, hs]
  case amoMinu =>
    change (if (st.zeroExtend 64).ult (ld.zeroExtend 64) then extend .amoMinu st
      else extend .amoMinu ld).extractLsb' 0 32 = if st.ult ld then st else ld
    rw [ult_zeroExtend, apply_ite (BitVec.extractLsb' 0 32), hl, hs]

/-! ## The content of the memory -/

/-- The operand is of 4 or 8 bytes, aligned and within the request channel, and the byte enable
is within the operand. -/
structure Aligned (r : UcReq c) : Prop where
  size : r.size = 2 ∨ r.size = 3
  fits : 2 ^ r.size ≤ c.reqBytes
  off : 2 ^ r.size ∣ r.off
  be : ∀ b, r.be b = true → r.off % c.reqBytes ≤ b ∧ b < r.off % c.reqBytes + 2 ^ r.size

/-- The line in the memory after the command that the handler sends, by byte of the line. Only
the enabled bytes are written. -/
def memExec (u : Uncached c) (mem : Nat → Byte) : Nat → Byte :=
  let n := 2 ^ u.reqQ.size
  let old := word n fun k => mem (u.reqQ.off + k)
  let operand := word n fun k => u.memWdata (u.reqQ.off % c.reqBytes + k)
  fun a =>
    if u.reqQ.off ≤ a ∧ a < u.reqQ.off + n ∧ u.reqQ.be (a % c.reqBytes) = true
    then byte (u.reqQ.op.memAtomic.apply old operand) (a - u.reqQ.off) else mem a

/-- The response holds the old value in the lanes of the address. -/
def HoldsOld (u : Uncached c) (mem : Nat → Byte) : Prop :=
  ∀ k < 2 ^ u.reqQ.size, u.rspRdataQ (u.reqQ.off % c.reqBytes + k) = mem (u.reqQ.off + k)

/-! ## The bytes that the handler computes -/

section Result

variable {u : Uncached c} {mem : Nat → Byte} {k : Nat}

theorem memWdata_word (n : Nat) :
    (word n fun k => u.memWdata (u.reqQ.off % c.reqBytes + k)) =
      u.reqQ.op.memOperand (word n fun k => u.reqQ.data (u.reqQ.off % c.reqBytes + k)) := by
  unfold memWdata ReqOp.memOperand
  split_ifs
  · exact word_not
  · rfl

theorem dword_eq_word (b : Nat → Byte) : dword b = word 8 b := rfl

/-- The half of a double word. -/
theorem extract_high (f : Nat → Byte) :
    BitVec.extractLsb' 32 32 (word 8 f : BitVec 64) = word 4 fun k => f (4 + k) :=
  extract_word (n := 4) (m := 8) (a := 4) (by decide)

theorem extract_low (f : Nat → Byte) :
    BitVec.extractLsb' 0 32 (word 8 f : BitVec 64) = word 4 f := by
  have h := extract_word (n := 4) (m := 8) (a := 0) (f := f) (by decide)
  simpa only [Nat.zero_add] using h

/-- The double word of a wide request. -/
theorem amoReqData_wide (hc : 8 ∣ c.reqBytes) (hpos : 8 ≤ c.reqBytes) (data : Nat → Byte) :
    u.amoReqData data = word 8 fun k => data (u.reqQ.off % c.reqBytes - u.reqQ.off % 8 + k) := by
  obtain ⟨r, hr⟩ := hc
  have hlane : u.reqQ.off % c.reqBytes - u.reqQ.off % 8 =
      8 * (u.reqQ.off / 8 % (c.reqBytes / 8)) := by
    rw [hr, Nat.mod_mul, Nat.mul_div_cancel_left r (by decide), Nat.add_sub_cancel_left]
  rw [amoReqData, if_pos hpos, dword_eq_word, hlane]

/-- The operand of the unit on 8 bytes. -/
theorem operand_size3 (hs : u.reqQ.size = 3) (h : Aligned u.reqQ) (hc : 8 ∣ c.reqBytes)
    (data : Nat → Byte) (sign : Bool) :
    prepareAmoDataOperand (u.amoReqData data) u.reqQ.size u.reqQ.off sign =
      word 8 fun k => data (u.reqQ.off % c.reqBytes + k) := by
  have hoff : u.reqQ.off % 8 = 0 := Nat.mod_eq_zero_of_dvd (by simpa [hs] using h.off)
  have hfits : 8 ≤ c.reqBytes := by simpa [hs] using h.fits
  rw [prepareAmoDataOperand, if_pos hs, amoReqData_wide hc hfits, hoff, Nat.sub_zero]

/-- The half of the double word that the address selects. -/
theorem amoReqData_half (hs : u.reqQ.size = 2) (h : Aligned u.reqQ)
    (hc : c.reqBytes = 4 ∨ 8 ∣ c.reqBytes) (data : Nat → Byte) :
    (if u.reqQ.off / 4 % 2 = 1 then (u.amoReqData data).extractLsb' 32 32
      else (u.amoReqData data).extractLsb' 0 32) =
      word 4 fun k => data (u.reqQ.off % c.reqBytes + k) := by
  have hoff : u.reqQ.off % 4 = 0 := Nat.mod_eq_zero_of_dvd (by simpa [hs] using h.off)
  have hfits : 4 ≤ c.reqBytes := by simpa [hs] using h.fits
  rcases hc with hc | hc
  · have hlane : u.reqQ.off % c.reqBytes = 0 := by rw [hc, hoff]
    have hnarrow : ¬ 8 ≤ c.reqBytes := by omega
    rw [amoReqData, if_neg hnarrow, hlane]
    by_cases hhalf : u.reqQ.off / 4 % 2 = 1
    · rw [if_pos hhalf, if_pos hhalf, dword_eq_word, extract_high]
      exact word_congr fun k _ => by simp
    · rw [if_neg hhalf, if_neg hhalf, dword_eq_word, extract_low]
      exact word_congr fun k hk => by simp [hk]
  · have hle : u.reqQ.off % 8 ≤ u.reqQ.off % c.reqBytes := by
      obtain ⟨r, hr⟩ := hc
      rw [hr, Nat.mod_mul]
      exact Nat.le_add_right _ _
    have hwide : 8 ≤ c.reqBytes := Nat.le_of_dvd (by omega) hc
    rw [amoReqData_wide hc hwide]
    by_cases hhalf : u.reqQ.off / 4 % 2 = 1
    · rw [if_pos hhalf, extract_high]
      exact word_congr fun k _ => congrArg data (by omega)
    · rw [if_neg hhalf, extract_low]
      exact word_congr fun k _ => congrArg data (by omega)

/-- The operand of the unit on 4 bytes. -/
theorem operand_size2 (hs : u.reqQ.size = 2) (h : Aligned u.reqQ)
    (hc : c.reqBytes = 4 ∨ 8 ∣ c.reqBytes) (data : Nat → Byte) :
    prepareAmoDataOperand (u.amoReqData data) u.reqQ.size u.reqQ.off
        (amoNeedSignExtend u.reqQ.op) =
      extend u.reqQ.op (word 4 fun k => data (u.reqQ.off % c.reqBytes + k)) := by
  have hs' : ¬ u.reqQ.size = 3 := by omega
  rw [← amoReqData_half hs h hc, prepareAmoDataOperand, if_neg hs']
  rfl

/-- A store-conditional writes its operand, whatever the memory held. -/
theorem apply_stex {w : Nat} {op : ReqOp} (h : op = .amoSc) (old old' d : BitVec w) :
    op.memAtomic.apply old d = op.memAtomic.apply old' d := by
  rw [h]
  rfl

variable (ho : u.reqQ.op.isAmo = true) (h : Aligned u.reqQ)
  (hc : c.reqBytes = 4 ∨ 8 ∣ c.reqBytes) (hold : u.reqQ.op ≠ .amoSc → HoldsOld u mem)
include ho h hc hold

/-- A byte of the operand as the handler computes it is the one that the memory writes. -/
theorem byteOf_amoResult (hk : k < 2 ^ u.reqQ.size) :
    byteOf (prepareAmoDataResult u.amoResult u.reqQ.size)
        ((u.reqQ.off % c.reqBytes + k) % 8) =
      byte (u.reqQ.op.memAtomic.apply (word (2 ^ u.reqQ.size) fun k => mem (u.reqQ.off + k))
        (word (2 ^ u.reqQ.size) fun k => u.memWdata (u.reqQ.off % c.reqBytes + k))) k := by
  have happly : u.reqQ.op.memAtomic.apply
        (word (2 ^ u.reqQ.size) fun k => u.rspRdataQ (u.reqQ.off % c.reqBytes + k))
        (word (2 ^ u.reqQ.size) fun k => u.memWdata (u.reqQ.off % c.reqBytes + k)) =
      u.reqQ.op.memAtomic.apply (word (2 ^ u.reqQ.size) fun k => mem (u.reqQ.off + k))
        (word (2 ^ u.reqQ.size) fun k => u.memWdata (u.reqQ.off % c.reqBytes + k)) := by
    by_cases hsc : u.reqQ.op = .amoSc
    · exact apply_stex hsc _ _ _
    · rw [word_congr fun k hk => hold hsc k hk]
  rw [← happly, memWdata_word]
  rcases h.size with hs | hs
  · have hres : prepareAmoDataResult u.amoResult u.reqQ.size =
        (u.amoResult.extractLsb' 0 32) ++ (u.amoResult.extractLsb' 0 32) := by
      rw [prepareAmoDataResult, if_neg (by omega)]
    have hval : u.amoResult.extractLsb' 0 32 = u.reqQ.op.memAtomic.apply
        (word 4 fun k => u.rspRdataQ (u.reqQ.off % c.reqBytes + k))
        (u.reqQ.op.memOperand (word 4 fun k => u.reqQ.data (u.reqQ.off % c.reqBytes + k))) := by
      rw [amoResult]
      dsimp only
      rw [operand_size2 hs h hc, operand_size2 hs h hc]
      exact amo_extend ho _ _
    have hk4 : k < 4 := by simpa [hs] using hk
    have hlane : u.reqQ.off % c.reqBytes % 4 = 0 := by
      have hoff : u.reqQ.off % 4 = 0 := Nat.mod_eq_zero_of_dvd (by simpa [hs] using h.off)
      have h4 : 4 ∣ c.reqBytes := by
        rcases hc with hc | hc
        · exact ⟨1, hc⟩
        · exact Nat.dvd_trans (by decide) hc
      rw [Nat.mod_mod_of_dvd _ h4, hoff]
    rw [hres, hval, hs]
    have hpos : (u.reqQ.off % c.reqBytes + k) % 8 = k ∨
        (u.reqQ.off % c.reqBytes + k) % 8 = 4 + k := by omega
    rcases hpos with hpos | hpos
    · rw [hpos]
      exact (byte_append_self (n := 4) _ hk4).1
    · rw [hpos]
      exact (byte_append_self (n := 4) _ hk4).2
  · have hc8 : 8 ∣ c.reqBytes := by
      have := h.fits
      rw [hs] at this
      exact hc.resolve_left (by omega)
    have hval : u.amoResult = u.reqQ.op.memAtomic.apply
        (word 8 fun k => u.rspRdataQ (u.reqQ.off % c.reqBytes + k))
        (u.reqQ.op.memOperand (word 8 fun k => u.reqQ.data (u.reqQ.off % c.reqBytes + k))) := by
      rw [amoResult]
      dsimp only
      rw [operand_size3 hs h hc8, operand_size3 hs h hc8]
      exact amo_eq_apply ho _ _
    have hk8 : k < 8 := by simpa [hs] using hk
    have hlane : u.reqQ.off % c.reqBytes % 8 = 0 := by
      rw [Nat.mod_mod_of_dvd _ hc8]
      exact Nat.mod_eq_zero_of_dvd (by simpa [hs] using h.off)
    have hpos : (u.reqQ.off % c.reqBytes + k) % 8 = k := by omega
    rw [prepareAmoDataResult, if_pos hs, hval, hs, hpos]
    rfl

end Result

/-! ## The write in the data RAM -/

/-- Of the users that come before it, none uses the data RAM while the handler writes. -/
structure OwnsData (u : Uncached c) (i : MemIn c) : Prop where
  not_refill : i.dataRefill = false
  not_req : i.dataReqWrite = false
  not_flush : i.dataFlushRead = false
  write : i.dataAmoWrite = u.dataAmoWrite
  enable : i.dataAmoWriteEnable = u.reqHit
  set : i.dataAmoWriteSet = u.reqQ.nline.set
  size : i.dataAmoWriteSize = u.reqQ.size
  word : i.dataAmoWriteWord = u.reqQ.off / c.wordBytes
  way : i.dataAmoWriteWay = u.reqQ.hitWay
  data : i.dataAmoWriteData = u.dataAmoWriteData
  be : i.dataAmoWriteBe = u.dataAmoWriteBe

theorem ownsData_memIn {s : Cache c} {i : CacheIn c} (h1 : (s.memIn i).dataRefill = false)
    (h2 : (s.memIn i).dataReqWrite = false) (h3 : (s.memIn i).dataFlushRead = false) :
    s.uc.OwnsData (s.memIn i) :=
  ⟨h1, h2, h3, rfl, rfl, rfl, rfl, rfl, rfl, rfl, rfl⟩

/-- The byte of the line is one that the operation writes. -/
def WritesByte (r : UcReq c) (a : Nat) : Prop :=
  r.off ≤ a ∧ a < r.off + 2 ^ r.size ∧ r.be (a % c.reqBytes) = true

instance (r : UcReq c) (a : Nat) : Decidable (WritesByte r a) :=
  inferInstanceAs (Decidable (_ ∧ _ ∧ _))

section Write

variable {u : Uncached c} {a : Nat}

variable (h : Aligned u.reqQ) (hc : c.reqBytes = 4 ∨ 8 ∣ c.reqBytes)
include h hc

/-- The operand does not cross the block of its request. -/
theorem Aligned.fits_block : u.reqQ.off % c.reqBytes + 2 ^ u.reqQ.size ≤ c.reqBytes := by
  apply mod_add_le c.reqBytes_pos _ h.off
  have hfits := h.fits
  rcases h.size with hs | hs <;> rw [hs] at hfits ⊢ <;> omega

theorem WritesByte.block (hw : WritesByte u.reqQ a) :
    a / c.reqBytes = u.reqQ.off / c.reqBytes ∧
      a % c.reqBytes = u.reqQ.off % c.reqBytes + (a - u.reqQ.off) := by
  have hfit := h.fits_block hc
  obtain ⟨h1, h2, -⟩ := hw
  have hsum : a = c.reqBytes * (u.reqQ.off / c.reqBytes) +
      (u.reqQ.off % c.reqBytes + (a - u.reqQ.off)) := by
    have := Nat.div_add_mod u.reqQ.off c.reqBytes
    omega
  have hlt : u.reqQ.off % c.reqBytes + (a - u.reqQ.off) < c.reqBytes := by omega
  constructor
  · conv_lhs => rw [hsum, Nat.mul_add_div (c.reqBytes_pos), Nat.div_eq_of_lt hlt, Nat.add_zero]
  · conv_lhs => rw [hsum, Nat.mul_add_mod, Nat.mod_eq_of_lt hlt]

omit hc in
/-- In the block of the request, the enabled bytes are those that the operation writes. -/
theorem writesByte_of_be (hb : a / c.reqBytes = u.reqQ.off / c.reqBytes)
    (hbe : u.reqQ.be (a % c.reqBytes) = true) : WritesByte u.reqQ a := by
  obtain ⟨h1, h2⟩ := h.be _ hbe
  have ha := Nat.div_add_mod a c.reqBytes
  have ho := Nat.div_add_mod u.reqQ.off c.reqBytes
  rw [hb] at ha
  exact ⟨by omega, by omega, hbe⟩

/-- The columns of the access hold the operand. -/
theorem computeDataRamCs_of_writes (hw : WritesByte u.reqQ a) :
    MemCtrl.computeDataRamCs c u.reqQ.size (u.reqQ.off / c.wordBytes)
      (a % c.accessBytes / c.wordBytes) = true := by
  have hcol : a % c.accessBytes / c.wordBytes = a / c.wordBytes % c.accessWords := by
    rw [Cfg.accessBytes, Nat.mul_comm, Nat.mod_mul_right_div_self]
  have hbytes : (if u.reqQ.size ≤ 3 then 8 else if u.reqQ.size = 4 then 16
      else if u.reqQ.size = 5 then 32 else 64) = 8 := by
    rcases h.size with hs | hs <;> rw [hs] <;> rfl
  unfold MemCtrl.computeDataRamCs
  rw [hcol, hbytes, decide_eq_true_eq]
  obtain ⟨h1, h2, -⟩ := hw
  have hoff := h.off
  have hfits := h.fits
  rcases c.wordBytes_eq with hb | hb
  · -- words of 4 bytes: the operand covers one word, or an even one and the next
    rw [hb]
    rcases h.size with hs | hs
    · rw [hs] at hoff h2
      have : a / 4 = u.reqQ.off / 4 := by omega
      rw [this]
      omega
    · rw [hs] at hoff h2 hfits
      have h8 : 8 ∣ c.reqBytes := hc.resolve_left (by omega)
      have heven : 2 ∣ c.accessWords := by
        have : 2 ∣ c.reqWords := by
          rw [Cfg.reqBytes, hb] at h8
          omega
        exact this.trans c.reqWords_dvd
      have hmod : 2 ∣ u.reqQ.off / 4 % c.accessWords :=
        (Nat.dvd_mod_iff heven).2 (by omega)
      have hlt := Nat.mod_lt (u.reqQ.off / 4) c.accessWords_pos
      have hcase : a / 4 = u.reqQ.off / 4 ∨ a / 4 = u.reqQ.off / 4 + 1 := by omega
      rcases hcase with hcase | hcase
      · rw [hcase]
        omega
      · have hnext : (u.reqQ.off / 4 + 1) % c.accessWords =
            u.reqQ.off / 4 % c.accessWords + 1 := by
          have h1 : 1 % c.accessWords = 1 := Nat.mod_eq_of_lt (by omega)
          rw [Nat.add_mod, h1, Nat.mod_eq_of_lt (by omega)]
        rw [hcase, hnext]
        omega
  · rw [hb]
    have : a / 8 = u.reqQ.off / 8 := by
      rcases h.size with hs | hs <;> rw [hs] at hoff h2 <;> omega
    rw [this]
    omega

end Write

/-- The content of the local copy after the handler's write: the bytes that the operation writes are
those of the memory, and every other byte of the data RAM is what it was. -/
def Copied (r : UcReq c) (line : Nat → Byte) (w : Fin c.ways) (m m' : MemCtrl c) : Prop :=
  ∀ set v a, m'.dataRam set v a =
    if set = r.nline.set ∧ v = w ∧ WritesByte r a then line a else m.dataRam set v a

/-- With ECC an operation that is narrower than a word is merged with the old data. -/
def Merged (r : UcReq c) : Prop := c.eccEn = true ∧ 2 ^ r.size < c.wordBytes

/-- The old data that came with the request are those of the local copy, in the bytes of the word
that are not enabled. -/
def Latched (r : UcReq c) (w : Fin c.ways) (m : MemCtrl c) : Prop :=
  ∀ a, a / c.wordBytes = r.off / c.wordBytes → r.be (a % c.reqBytes) = false →
    r.oldData (a % c.reqBytes) = m.dataRam r.nline.set w a

section Copy

variable {u : Uncached c} {m : MemCtrl c} {i : MemIn c} (hown : u.OwnsData i)
  (hwrite : u.dataAmoWrite = true) {w : Fin c.ways} (hway : ∀ v, u.reqQ.hitWay v = true ↔ v = w)
include hown hwrite

theorem dataWrite_of_ownsData : m.dataWrite i = ⟨true, u.reqHit, u.reqQ.nline.set, u.reqQ.size,
    u.reqQ.off / c.wordBytes, MemCtrl.upsizeData c u.dataAmoWriteData,
    MemCtrl.upsizeBe c (u.reqQ.off / c.wordBytes) u.dataAmoWriteBe⟩ := by
  rw [MemCtrl.dataWrite, hown.not_refill, hown.not_req, hown.write, hwrite, hown.enable,
    hown.set, hown.size, hown.word, hown.data, hown.be]
  rfl

theorem dataWay_of_ownsData : MemCtrl.dataWay i = u.reqQ.hitWay := by
  rw [MemCtrl.dataWay, hown.not_refill, hown.not_flush, hown.write, hwrite, hown.way]
  rfl

include hway

theorem oneHot_of_ownsData : OneHot (MemCtrl.dataWay i) := by
  rw [dataWay_of_ownsData hown hwrite]
  intro j k hj hk
  rw [(hway j).1 hj, (hway k).1 hk]

/-- A byte of the data RAM is written by the handler when its way, its set, its block and its
column are those of the access, and it is enabled. -/
theorem dataWe_select (set : Fin c.sets) (v : Fin c.ways) (a : Nat) :
    m.dataWe i set v a = true ↔
      set = u.reqQ.nline.set ∧ v = w ∧ a / c.reqBytes = u.reqQ.off / c.reqBytes ∧
        MemCtrl.computeDataRamCs c u.reqQ.size (u.reqQ.off / c.wordBytes)
          (a % c.accessBytes / c.wordBytes) = true ∧
        u.dataAmoWriteBe (a % c.reqBytes) = true := by
  have hhit : u.reqHit = true := any_eq_true.2 ⟨w, (hway w).2 rfl⟩
  rw [MemCtrl.dataWe_iff (oneHot_of_ownsData hown hwrite hway), dataWrite_of_ownsData hown hwrite,
    dataWay_of_ownsData hown hwrite, ← MemCtrl.reqBlock_eq u.reqQ.off, ← MemCtrl.request_block]
  simp only [MemCtrl.upsizeBe, hhit, MemCtrl.mod_reqBytes, true_and, Bool.and_eq_true,
    decide_eq_true_eq, hway]
  constructor
  · rintro ⟨hset, hv, hchunk, hcs, hlane, hbe⟩
    exact ⟨hset, hv, ⟨hchunk, hlane⟩, hcs, hbe⟩
  · rintro ⟨hset, hv, ⟨hchunk, hlane⟩, hcs, hbe⟩
    exact ⟨hset, hv, hchunk, hcs, hlane, hbe⟩

theorem dataRamNext_select (set : Fin c.sets) (v : Fin c.ways) (a : Nat) :
    m.dataRamNext i set v a =
      if set = u.reqQ.nline.set ∧ v = w ∧ a / c.reqBytes = u.reqQ.off / c.reqBytes ∧
          MemCtrl.computeDataRamCs c u.reqQ.size (u.reqQ.off / c.wordBytes)
            (a % c.accessBytes / c.wordBytes) = true ∧
          u.dataAmoWriteBe (a % c.reqBytes) = true
        then u.dataAmoWriteData (a % c.reqBytes) else m.dataRam set v a := by
  have hdata : (m.dataWrite i).data (a % c.accessBytes) = u.dataAmoWriteData (a % c.reqBytes) := by
    rw [dataWrite_of_ownsData hown hwrite]
    exact congrArg u.dataAmoWriteData (MemCtrl.mod_reqBytes a)
  exact if_congr (dataWe_select hown hwrite hway set v a) hdata rfl

/-- A write of whole words leaves what a RAM of bytes would hold. -/
theorem step_of_whole (h : c.eccEn = true → c.WholeWords u.dataAmoWriteBe) :
    (m.step i).dataRam = m.dataRamNext i := by
  funext set v a
  apply MemCtrl.dataRam_step_eq
  cases hecc : c.eccEn with
  | false => exact Cfg.merges_of_not_ecc hecc
  | true =>
    apply MemCtrl.merges_of_words (oneHot_of_ownsData hown hwrite hway)
    rw [dataWrite_of_ownsData hown hwrite]
    exact MemCtrl.whole_upsizeBe (h hecc) _ _

section Values

variable {mem : Nat → Byte} (ho : u.reqQ.op.isAmo = true) (h : Aligned u.reqQ)
  (hc : c.reqBytes = 4 ∨ 8 ∣ c.reqBytes) (hold : u.reqQ.op ≠ .amoSc → u.HoldsOld mem)
include ho h hc hold

/-- When the handler writes a line that is in the cache, the bytes that the operation writes are
those of the memory. -/
theorem dataRamNext_of_writes {a : Nat} (ha : WritesByte u.reqQ a) :
    m.dataRamNext i u.reqQ.nline.set w a = u.memExec mem a := by
  obtain ⟨hblock, hlane⟩ := ha.block h hc
  have hcs := computeDataRamCs_of_writes h hc ha
  have hbe : u.dataAmoWriteBe (a % c.reqBytes) = true := by simp [dataAmoWriteBe, ha.2.2]
  have hk : a - u.reqQ.off < 2 ^ u.reqQ.size := by
    have := ha.2.1
    have := ha.1
    omega
  have hval : u.dataAmoWriteData (a % c.reqBytes) =
      byteOf (prepareAmoDataResult u.amoResult u.reqQ.size) (a % c.reqBytes % 8) := by
    simp [dataAmoWriteData, ha.2.2]
  rw [dataRamNext_select hown hwrite hway, if_pos ⟨rfl, rfl, hblock, hcs, hbe⟩, hval, hlane,
    byteOf_amoResult ho h hc hold hk]
  exact (if_pos ha).symm

/-- The bytes of a RAM without a code. With ECC, those around a narrow operand are written with what
was read before. -/
theorem dataRamNext_of_ownsData (hlatch : u.dataAmoMerge = true → Latched u.reqQ w m)
    (set : Fin c.sets) (v : Fin c.ways) (a : Nat) :
    m.dataRamNext i set v a =
      if set = u.reqQ.nline.set ∧ v = w ∧ WritesByte u.reqQ a then u.memExec mem a
      else m.dataRam set v a := by
  split_ifs with hx
  · obtain ⟨rfl, rfl, ha⟩ := hx
    exact dataRamNext_of_writes hown hwrite hway ho h hc hold ha
  · rw [dataRamNext_select hown hwrite hway]
    split_ifs with hsel
    · obtain ⟨rfl, rfl, hblock, hcs, hbe⟩ := hsel
      have hnbe : u.reqQ.be (a % c.reqBytes) = false := by
        rw [Bool.eq_false_iff]
        exact fun hb => hx ⟨rfl, rfl, writesByte_of_be h hblock hb⟩
      have hmerge : u.dataAmoMerge = true := by simpa [dataAmoWriteBe, hnbe] using hbe
      have hm := hmerge
      rw [dataAmoMerge, Bool.and_eq_true, decide_eq_true_eq] at hm
      have hval : u.dataAmoWriteData (a % c.reqBytes) = u.reqQ.oldData (a % c.reqBytes) := by
        simp [dataAmoWriteData, hm.1, hnbe]
      have hblock' : a / c.reqBytes = u.reqQ.off / c.wordBytes / c.reqWords := by
        rw [hblock, MemCtrl.reqBlock_eq]
      rw [hval]
      exact hlatch hmerge a ((MemCtrl.cs_of_narrow h.size hm.2 hblock').1 hcs) hnbe
    · rfl

/-- **A merged operation.** The local copy is right exactly when the old data are its bytes. -/
theorem copied_merged (hmerge : u.dataAmoMerge = true) :
    Copied u.reqQ (u.memExec mem) w m (m.step i) ↔ Latched u.reqQ w m := by
  have hwhole : c.WholeWords u.dataAmoWriteBe := by
    intro j _ l _
    simp [dataAmoWriteBe, hmerge]
  have hstep := step_of_whole (m := m) hown hwrite hway fun _ => hwhole
  have hm := hmerge
  rw [dataAmoMerge, Bool.and_eq_true, decide_eq_true_eq] at hm
  constructor
  · intro hcopy a ha hbe
    have hnot : ¬ WritesByte u.reqQ a := fun hx => by
      rw [hx.2.2] at hbe
      contradiction
    have hblock : a / c.reqBytes = u.reqQ.off / c.wordBytes / c.reqWords := by
      rw [← MemCtrl.reqBlock_eq, ha]
    have hcs := (MemCtrl.cs_of_narrow h.size hm.2 hblock).2 ha
    have hval : u.dataAmoWriteData (a % c.reqBytes) = u.reqQ.oldData (a % c.reqBytes) := by
      simp [dataAmoWriteData, hm.1, hbe]
    have hnext := hcopy u.reqQ.nline.set w a
    rw [if_neg fun hx => hnot hx.2.2, hstep, dataRamNext_select hown hwrite hway, if_pos, hval]
      at hnext
    · exact hnext
    · exact ⟨rfl, rfl, by rw [hblock, MemCtrl.reqBlock_eq], hcs, by simp [dataAmoWriteBe, hmerge]⟩
  · intro hlatch set v a
    rw [hstep]
    exact dataRamNext_of_ownsData hown hwrite hway ho h hc hold (fun _ => hlatch) set v a

/-- A sparse write leaves a word that its decoder does not give as it should, in some content. -/
theorem exists_not_copied (hmerge : u.dataAmoMerge = false) (hecc : c.eccEn = true)
    (hsparse : ¬ c.WholeWords u.reqQ.be) :
    ∃ m : MemCtrl c, ¬ Copied u.reqQ (u.memExec mem) w m (m.step i) := by
  unfold Cfg.WholeWords at hsparse
  push Not at hsparse
  obtain ⟨j, hj, hnot⟩ := hsparse
  -- the word of the line
  obtain ⟨x, hx⟩ : ∃ x, x = u.reqQ.off / c.reqBytes * c.reqWords + j := ⟨_, rfl⟩
  have hxdiv : x / c.reqWords = u.reqQ.off / c.reqBytes ∧ x % c.reqWords = j := by
    rw [hx, Nat.mul_comm, Nat.mul_add_div c.reqWords_pos, Nat.mul_add_mod, Nat.div_eq_of_lt hj,
      Nat.mod_eq_of_lt hj, Nat.add_zero]
    exact ⟨rfl, rfl⟩
  have hbe : ∀ l < c.wordBytes, (Cache.blankMem c).wordBe i u.reqQ.nline.set w x l =
      u.reqQ.be (j * c.wordBytes + l) := by
    intro l hl
    obtain ⟨hdiv, hmod⟩ := MemCtrl.byte_in_words c.reqWords x hl
    have hblock : (x * c.wordBytes + l) / c.reqBytes = u.reqQ.off / c.reqBytes :=
      hdiv.trans hxdiv.1
    have hlane : (x * c.wordBytes + l) % c.reqBytes = j * c.wordBytes + l := by
      rw [Cfg.reqBytes, hmod, hxdiv.2]
    rw [MemCtrl.wordBe, Bool.eq_iff_iff, dataWe_select hown hwrite hway, hlane]
    constructor
    · rintro ⟨-, -, -, -, hx⟩
      simpa [dataAmoWriteBe, hmerge] using hx
    · intro hx
      have hw := writesByte_of_be h hblock (by rw [hlane]; exact hx)
      exact ⟨rfl, rfl, hblock, computeDataRamCs_of_writes h hc hw, by simp [dataAmoWriteBe, hx]⟩
  obtain ⟨old, hnm⟩ := Cfg.exists_not_merges hecc hnot ((Cache.blankMem c).wordData i x)
  refine ⟨(Cache.blankMem c).fill (c.eccEncode old), fun hcopy => hnm ?_⟩
  have hmerges : c.Merges
      (((Cache.blankMem c).fill (c.eccEncode old)).dataWord u.reqQ.nline.set w x)
      (((Cache.blankMem c).fill (c.eccEncode old)).wordData i x)
      (((Cache.blankMem c).fill (c.eccEncode old)).wordBe i u.reqQ.nline.set w x) := by
    rw [← MemCtrl.dataRam_step_iff]
    intro l _
    rw [hcopy, dataRamNext_of_ownsData hown hwrite hway ho h hc hold]
    exact fun hm => absurd (hm.symm.trans hmerge) (by decide)
  exact (Cfg.merges_congr (fun l hl => MemCtrl.dataWord_fill _ _ _ _ _ hl) (fun _ _ => rfl)
    fun l hl => hbe l hl).1 hmerges

/-- **An operation that is not merged.** The local copy is right in every content exactly when its
bytes are enabled by words, with ECC. -/
theorem copied_whole (hmerge : u.dataAmoMerge = false) :
    (∀ m : MemCtrl c, Copied u.reqQ (u.memExec mem) w m (m.step i)) ↔
      (c.eccEn = true → c.WholeWords u.reqQ.be) := by
  constructor
  · intro hcopy hecc
    by_contra hsparse
    obtain ⟨m, hm⟩ := exists_not_copied hown hwrite hway ho h hc hold hmerge hecc hsparse
    exact hm (hcopy m)
  · intro hwhole m set v a
    have hbe : u.dataAmoWriteBe = u.reqQ.be := by
      funext b
      simp [dataAmoWriteBe, hmerge]
    rw [step_of_whole hown hwrite hway (by rw [hbe]; exact hwhole)]
    exact dataRamNext_of_ownsData hown hwrite hway ho h hc hold
      (fun hm => absurd (hm.symm.trans hmerge) (by decide)) set v a

end Values

end Copy

/-! ## From the acceptance to the write -/

/-- A read response gives the old value in the lanes of the address. -/
def Returns (r : UcReq c) (mem data : Nat → Byte) : Prop :=
  ∀ k < 2 ^ r.size, data (r.off % c.reqBytes + k) = mem (r.off + k)

/-- The handler is busy with the request `r`, and holds the old value once the memory has given
it. -/
structure Fetches (r : UcReq c) (mem : Nat → Byte) (u : Uncached c) : Prop where
  req : u.reqQ = r
  read : u.fsmQ = .memWReq ∨ u.fsmQ = .memWdataReq ∨ u.fsmQ = .memWaitRsp →
    u.memRespReadValidQ = true → Returns r mem u.rspRdataQ
  write : u.fsmQ = .amoWriteData → r.op ≠ .amoSc → Returns r mem u.rspRdataQ

variable {u : Uncached c} {i : UcIn c} {r : UcReq c} {mem : Nat → Byte}

theorem fetches_of_accepted (hready : u.ready = true) (hv : i.reqValid = true) :
    Fetches i.req mem (u.step i) := by
  have hidle : u.fsmQ = .idle := by simpa [ready] using hready
  have hfsm : (u.step i).fsmQ = u.idleD i := by
    change u.fsmD i = _
    simp [fsmD, hidle]
  have hnext : u.idleD i = .memReq ∨ u.idleD i = .coreRsp ∨ u.idleD i = .idle := by
    unfold idleD
    split_ifs <;> simp
  refine ⟨by simp [step, hv, hready], fun hf => ?_, fun hf => ?_⟩
  · rw [hfsm] at hf
    rcases hnext with hn | hn | hn <;> simp [hn] at hf
  · rw [hfsm] at hf
    rcases hnext with hn | hn | hn <;> simp [hn] at hf

/-- A response either leaves the register as it was or loads it with the old value. -/
theorem step_returns (hmem : ∀ x, i.memRead = some x → Returns r mem x.data)
    (h : i.memRead.isSome = true ∨ Returns r mem u.rspRdataQ) :
    Returns r mem (u.step i).rspRdataQ := by
  change Returns r mem (i.memRead.elim u.rspRdataQ UcReadResp.data)
  cases hr : i.memRead with
  | none => exact h.resolve_left (by simp [hr])
  | some x => exact hmem x hr

/-- The result is written only once the old value is there, but for a store-conditional. -/
theorem memRead_of_amoWriteData (hd : u.waitRspD i = .amoWriteData) (hsc : u.reqQ.op ≠ .amoSc) :
    i.memRead.isSome = true ∨ u.memRespReadValidQ = true := by
  by_contra hno
  rw [not_or, Bool.not_eq_true, Bool.not_eq_true] at hno
  obtain ⟨h1, h2⟩ := hno
  have hdone : u.rmwDone i = false := by simp [rmwDone, h1, h2]
  cases hn : u.reqQ.needRsp <;> unfold waitRspD at hd <;>
    simp only [h1, hdone, hsc, hn, Bool.false_eq_true, if_false, if_true] at hd <;>
    split_ifs at hd

theorem Fetches.step (h : Fetches r mem u) (hbusy : u.ready = false)
    (hmem : ∀ x, i.memRead = some x → Returns r mem x.data) : Fetches r mem (u.step i) := by
  have hreq : (u.step i).reqQ = r := by simp [Uncached.step, hbusy, h.req]
  have hd : (u.step i).fsmQ = u.fsmD i := rfl
  have hne : u.fsmQ ≠ .idle := by simpa [Uncached.ready] using hbusy
  refine ⟨hreq, fun hf hr => ?_, fun hf hsc => ?_⟩
  · rw [hd] at hf
    cases hq : u.fsmQ with
    | idle => exact absurd hq hne
    | memReq => simp [Uncached.step, hq] at hr
    | memWReq =>
      simp only [Uncached.step, hq] at hr
      exact step_returns hmem (.inr (h.read (.inl hq) hr))
    | memWdataReq =>
      simp only [Uncached.step, hq, Bool.or_eq_true] at hr
      exact step_returns hmem (hr.symm.imp_right (h.read (.inr (.inl hq))))
    | memWaitRsp =>
      simp only [Uncached.step, hq, Bool.or_eq_true] at hr
      exact step_returns hmem (hr.symm.imp_right (h.read (.inr (.inr hq))))
    | coreRsp =>
      simp only [fsmD, hq] at hf
      cases hc : i.coreRspReady <;> simp [hc] at hf
    | amoWriteData => simp [fsmD, hq] at hf
  · rw [hd] at hf
    cases hq : u.fsmQ with
    | idle => exact absurd hq hne
    | memReq =>
      simp only [fsmD, hq, memReqD] at hf
      split_ifs at hf
    | memWReq =>
      simp only [fsmD, hq] at hf
      split_ifs at hf
    | memWdataReq =>
      simp only [fsmD, hq] at hf
      split_ifs at hf
    | memWaitRsp =>
      simp only [fsmD, hq] at hf
      rw [← h.req] at hsc
      have := memRead_of_amoWriteData hf hsc
      exact step_returns hmem (this.imp_right (h.read (.inr (.inr hq))))
    | coreRsp =>
      simp only [fsmD, hq] at hf
      split_ifs at hf
    | amoWriteData => simp [fsmD, hq] at hf

theorem fetches_run {is : List (UcIn c)} (h : Fetches r mem u)
    (hbusy : Along step (fun v _ => v.ready = false) u is)
    (hmem : ∀ j ∈ is, ∀ x, j.memRead = some x → Returns r mem x.data) :
    Fetches r mem (run step u is) := by
  induction is generalizing u with
  | nil => exact h
  | cons j is ih =>
    exact ih (h.step hbusy.1 (hmem j (by simp))) hbusy.2 fun k hk => hmem k (by simp [hk])

theorem memExec_congr {v : Uncached c} (h : u.reqQ = v.reqQ) : u.memExec mem = v.memExec mem := by
  unfold memExec memWdata
  rw [h]

/-- The request width is 4 bytes or a multiple of 8. -/
theorem reqBytes_cases (hcl : ∃ n, c.clBytes = 2 ^ n) : c.reqBytes = 4 ∨ 8 ∣ c.reqBytes := by
  obtain ⟨n, hn⟩ := hcl
  have hdvd : c.reqBytes ∣ 2 ^ n := by
    rw [← hn]
    exact c.reqBytes_dvd_clBytes
  obtain ⟨k, -, hk⟩ := (Nat.dvd_prime_pow Nat.prime_two).1 hdvd
  have h4 : 4 ≤ c.reqBytes := by
    have h1 := c.reqWords_pos
    have h2 : 4 ≤ c.wordBytes := by rcases c.wordBytes_eq with h | h <;> omega
    calc 4 = 1 * 4 := rfl
      _ ≤ c.reqWords * c.wordBytes := Nat.mul_le_mul h1 h2
  rw [hk] at h4 ⊢
  match k, h4 with
  | 0, h4 => simp at h4
  | 1, h4 => simp at h4
  | 2, _ => exact .inl rfl
  | k + 3, _ => exact .inr ⟨2 ^ k, by ring⟩

theorem merged_iff {r : UcReq c} (h : u.reqQ = r) : u.dataAmoMerge = true ↔ Merged r := by
  rw [dataAmoMerge, Bool.and_eq_true, decide_eq_true_eq, h]
  rfl

/-- **The local copy.** The handler takes an atomic operation on a line that is in the cache and
sends it to the memory, which returns the old value in the lanes of the address. When the handler
writes the result in the data RAM, the bytes that the operation writes are those that the memory
holds after the command, and every other byte is what it was: for a merged operation exactly when
the old data are those of the local copy, and for another one, whatever the data RAM holds, exactly
when its bytes are enabled by words or there is no ECC. -/
theorem copied_iff (u : Uncached c) (i : UcIn c) (is : List (UcIn c)) (mem : Nat → Byte)
    (hcl : ∃ n, c.clBytes = 2 ^ n) (hready : u.ready = true) (hv : i.reqValid = true)
    (ho : i.req.op.isAmo = true) (h : Aligned i.req) (w : Fin c.ways)
    (hway : ∀ v, i.req.hitWay v = true ↔ v = w)
    (hbusy : Along step (fun v _ => v.ready = false) (u.step i) is)
    (hmem : ∀ j ∈ is, ∀ x, j.memRead = some x → Returns i.req mem x.data)
    (hwrite : (run step (u.step i) is).dataAmoWrite = true) (p : MemIn c)
    (hown : (run step (u.step i) is).OwnsData p) :
    (Merged i.req → ∀ m : MemCtrl c,
      Copied i.req ((u.step i).memExec mem) w m (m.step p) ↔ Latched i.req w m) ∧
    (¬ Merged i.req →
      ((∀ m : MemCtrl c, Copied i.req ((u.step i).memExec mem) w m (m.step p)) ↔
        (c.eccEn = true → c.WholeWords i.req.be))) := by
  have h0 : Fetches i.req mem (u.step i) := fetches_of_accepted hready hv
  have hf := fetches_run h0 hbusy hmem
  have hexec : (u.step i).memExec mem = (run step (u.step i) is).memExec mem :=
    memExec_congr (h0.req.trans hf.req.symm)
  rw [hexec]
  have hfsm : (run step (u.step i) is).fsmQ = .amoWriteData := by
    simpa [dataAmoWrite] using hwrite
  have hreq := hf.req
  have hmerged := merged_iff hreq
  have hold : (run step (u.step i) is).reqQ.op ≠ .amoSc →
      (run step (u.step i) is).HoldsOld mem := by
    intro hsc
    rw [hreq] at hsc
    have := hf.write hfsm hsc
    rwa [← hreq] at this
  generalize run step (u.step i) is = x at hown hwrite hreq hold hmerged ⊢
  rw [← hreq] at ho h hway hmerged ⊢
  have hc := reqBytes_cases hcl
  constructor
  · intro hm m
    exact copied_merged hown hwrite hway ho h hc hold (hmerged.2 hm)
  · intro hm
    exact copied_whole hown hwrite hway ho h hc hold (by simpa using fun hx => hm (hmerged.1 hx))

/-- The two responses to an operation come one after the other, and the old value is the given
one. -/
def amoReturns (c : Cfg) (old : Nat → Byte) : List (UcIn c) :=
  [quietIn c, { quietIn c with memRead := some ⟨false, old⟩ },
    { quietIn c with memWrite := some ⟨false, false⟩ }]

theorem returns_amoReturns {r : UcReq c} {mem : Nat → Byte} (hr : Returns r mem mem) :
    ∀ j ∈ amoReturns c mem, ∀ x, j.memRead = some x → Returns r mem x.data := by
  intro j hj x hx
  simp only [amoReturns, List.mem_cons, List.not_mem_nil, or_false] at hj
  obtain rfl | rfl | rfl := hj
  · exact absurd hx (by simp [quietIn])
  · cases hx
    exact hr
  · exact absurd hx (by simp [quietIn])

/-- The handler of the cache is about to write the result. -/
def amoWriting : Cache amoCfg :=
  { Cache.quiet amoCfg with
    uc := run step ((Cache.blankUc amoCfg).step amoAddIn) (amoReturns amoCfg fun _ => 0xFF) }

/-! ## Operations on a line in the cache, with ECC -/

/-- The refill of a line of ones. -/
def refillOnes : CacheIn eccCfg :=
  { CacheIn.idle eccCfg with
    missResp :=
      some ⟨false, ⟨0, by decide⟩, ⟨0, by decide⟩, false, Nline.zero _, fun _ => 1⟩ }

/-- An addition on eight bytes that enables the first one. -/
def sparseAdd : Req eccCfg :=
  { Req.access .amoAdd 1 false with
    be := fun k => decide (k = 0)
    wdata := fun k => if k = 0 then 2 else 0 }

/-- An addition on four bytes. Its tag and its attributes come later, and those that come with it
say that it is not cacheable. -/
def narrowAdd : Req eccCfg :=
  { Req.access .amoAdd 0 true with
    be := fun k => decide (k < 4)
    wdata := fun k => if k = 0 then 2 else 0
    size := 2
    physIndexed := false }

/-- The memory, which holds ones, answers the handler. -/
def answerOnes : CacheIn eccCfg :=
  { CacheIn.idle eccCfg with
    ucRead := some ⟨false, fun _ => 1⟩
    ucWrite := some ⟨false, false⟩ }

/-- A load misses, its line is refilled, and an operation on it is about to be written. -/
def beforeWrite (q : Req eccCfg) : Cache eccCfg :=
  run Cache.step (Cache.blank eccCfg).reset
    [.idle _, .idle _, .ask (.access .load 1 false), .idle _, .idle _, refillOnes, .idle _, .idle _,
      .idle _, .idle _, .ask q, { CacheIn.idle eccCfg with coreReqTag := 1 }, .idle _, .idle _,
      answerOnes]

def firstSet : Fin eccCfg.sets := ⟨0, by decide⟩

def firstWay : Fin eccCfg.ways := ⟨0, by decide⟩

/-- An addition on four bytes, with the ones that were read of the line. -/
def wordAddIn : UcIn eccCfg :=
  { quietIn eccCfg with
    reqValid := true
    req := { (Cache.blankUc eccCfg).reqQ with
      op := .amoAdd, size := 2, be := fun b => decide (b < 4), needRsp := true
      hitWay := fun w => decide (w = firstWay), oldData := fun _ => 1 } }

/-- The handler is about to write the result in the line of ones. -/
def wordAddWriting : Cache eccCfg :=
  { beforeWrite sparseAdd with
    uc := run step ((Cache.blankUc eccCfg).step wordAddIn) (amoReturns eccCfg fun _ => 1) }

/-- An addition without ECC on all the bytes of a word, and one with ECC that is merged with the
bytes around it. -/
theorem copied_iff_additions :
    Copied amoAddIn.req (((Cache.blankUc amoCfg).step amoAddIn).memExec fun _ => 0xFF)
        ⟨0, by decide⟩ amoWriting.mem (amoWriting.mem.step (amoWriting.memIn (.idle _))) ∧
      Copied wordAddIn.req (((Cache.blankUc eccCfg).step wordAddIn).memExec fun _ => 1) firstWay
        wordAddWriting.mem (wordAddWriting.mem.step (wordAddWriting.memIn (.idle _))) := by
  constructor
  · refine ((copied_iff (Cache.blankUc amoCfg) amoAddIn (amoReturns amoCfg fun _ => 0xFF)
      (fun _ => 0xFF) ⟨4, rfl⟩ rfl rfl rfl ⟨.inr rfl, by decide, ⟨0, rfl⟩, ?_⟩ ⟨0, by decide⟩ ?_
      ⟨rfl, rfl, rfl, trivial⟩ (returns_amoReturns fun _ _ => rfl) (by decide +kernel) _ ?_).2
      fun h => absurd h.1 (by decide)).2 (fun h => absurd h (by decide)) _
    · intro b hb
      exact ⟨Nat.zero_le _, of_decide_eq_true hb⟩
    · intro v
      simp [amoAddIn, Fin.ext_iff]
    · refine ownsData_memIn (s := amoWriting) ?_ ?_ ?_ <;> decide +kernel
  · refine ((copied_iff (Cache.blankUc eccCfg) wordAddIn (amoReturns eccCfg fun _ => 1)
      (fun _ => 1) ⟨4, rfl⟩ rfl rfl rfl ⟨.inl rfl, by decide, ⟨0, rfl⟩, ?_⟩ firstWay ?_
      ⟨rfl, rfl, rfl, trivial⟩ (returns_amoReturns fun _ _ => rfl) (by decide +kernel) _ ?_).1
      ⟨rfl, by decide⟩ _).2 ?_
    · intro b hb
      exact ⟨Nat.zero_le _, of_decide_eq_true hb⟩
    · intro v
      simp [wordAddIn]
    · refine ownsData_memIn (s := wordAddWriting) ?_ ?_ ?_ <;> decide +kernel
    · -- the bytes around the operand are ones, as those that were read
      have hones : ∀ a < 8, wordAddWriting.mem.dataRam firstSet firstWay a = 1 := by
        decide +kernel
      intro a ha _
      have ha8 : a / 8 = 0 := ha
      exact (hones a (by omega)).symm

/-- The handler writes the result in the line of the first way, which is not as the memory then. -/
def Miscopies (s : Cache eccCfg) : Prop :=
  s.uc.dataAmoWrite = true ∧ s.uc.reqQ.hitWay firstWay = true ∧
    ¬ Copied s.uc.reqQ (s.uc.memExec fun _ => 1) firstWay s.mem (s.step (.idle _)).mem

/-- Neither operation leaves the local copy as the memory. The decoder undoes the sparse write, and
the narrow one is merged with what was read before the refill. -/
theorem ecc_miscopies : Miscopies (beforeWrite sparseAdd) ∧ Miscopies (beforeWrite narrowAdd) := by
  refine ⟨⟨by decide +kernel, by decide +kernel, fun h => ?_⟩,
    ⟨by decide +kernel, by decide +kernel, fun h => ?_⟩⟩
  · -- the first byte is three in the memory, and one in the cache as before
    have hram : ((beforeWrite sparseAdd).step (.idle _)).mem.dataRam firstSet firstWay 0 = 1 := by
      decide +kernel
    have hmem : WritesByte (beforeWrite sparseAdd).uc.reqQ 0 ∧
        (beforeWrite sparseAdd).uc.reqQ.nline.set = firstSet ∧
        (beforeWrite sparseAdd).uc.memExec (fun _ => 1) 0 = 3 := by
      decide +kernel
    have h0 := h firstSet firstWay 0
    rw [hram, if_pos ⟨hmem.2.1.symm, rfl, hmem.1⟩, hmem.2.2] at h0
    exact absurd h0 (by decide)
  · -- the fifth byte is not of the operand, and it is cleared
    have hwhole : ∀ l < eccCfg.wordBytes,
        (beforeWrite narrowAdd).mem.wordBe ((beforeWrite narrowAdd).memIn (.idle _)) firstSet
          firstWay (4 / eccCfg.wordBytes) l = true := by
      decide +kernel
    have hnext : (beforeWrite narrowAdd).mem.dataRamNext
        ((beforeWrite narrowAdd).memIn (.idle _)) firstSet firstWay 4 = 0 := by
      decide +kernel
    have hram : ((beforeWrite narrowAdd).step (.idle _)).mem.dataRam firstSet firstWay 4 = 0 :=
      (MemCtrl.dataRam_step_eq (Cfg.merges_of_all hwhole)).trans hnext
    have hold : ¬ WritesByte (beforeWrite narrowAdd).uc.reqQ 4 ∧
        (beforeWrite narrowAdd).mem.dataRam firstSet firstWay 4 = 1 := by
      decide +kernel
    have h4 := h firstSet firstWay 4
    rw [hram, if_neg fun hx => hold.1 hx.2.2, hold.2] at h4
    exact absurd h4 (by decide)

end Uncached

end Hpdcache
