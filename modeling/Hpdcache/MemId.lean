import Hpdcache.Types
import Mathlib.Data.Nat.Log

/-!
# Transaction identifiers

The identifiers of the transactions on the memory channels. A miss is identified by its slot in the
MSHR, the way above the set. Of a write, the upper bit tells the flush controller from the write
buffer, and the others give the entry. The handler of the uncacheable requests has the identifier
whose bits are all set, on both channels.

The decoders stand apart from the encoders: the demultiplexers of the responses compare the
identifier with that of the uncacheable handler, then look at the upper bit; each unit takes the
bits of its slot out of what it receives.

* `IdCfg` — the checks on the width of the identifiers.
* `IdCfg.readDest_readId`, `IdCfg.writeDest_writeId` — a response is decoded to the unit and the
  slot of the transaction.
-/

namespace Hpdcache

/-- The parameters that pass the checks on the width of the identifiers, with a number of MSHR sets
that is a power of two. -/
structure IdCfg where
  cfg : Cfg
  memIdWidth : Nat
  mshrSets_pow : ∃ n, cfg.mshrSets = 2 ^ n
  mshr_ids : cfg.mshrWays * cfg.mshrSets ≤ 2 ^ memIdWidth - 1
  wbuf_ids : cfg.wtEn = true → cfg.wbufDirEntries ≤ 2 ^ (memIdWidth - 1)
  flush_ids : cfg.wbEn = true → cfg.flushEntries + 1 ≤ 2 ^ (memIdWidth - 1)

/-- What reads the memory: a slot of the MSHR, or the handler of the uncacheable requests. -/
inductive ReadUnit (c : Cfg)
  | miss (set : Fin c.mshrSets) (way : Fin c.mshrWays)
  | uc
  deriving DecidableEq, Repr

/-- What writes the memory. The write buffer exists with write-through only, and the flush
controller with write-back only. -/
inductive WriteUnit (c : Cfg)
  | wbuf (k : Fin c.wbufDirEntries) (h : c.wtEn = true)
  | flush (k : Fin c.flushEntries) (h : c.wbEn = true)
  | uc
  deriving DecidableEq, Repr

/-- The unit that a read response is given to, with the set and the way it decodes. -/
inductive ReadDest
  | miss (set way : Nat)
  | uc
  deriving DecidableEq, Repr

/-- The unit that a write response is given to, with the entry it decodes. -/
inductive WriteDest
  | wbuf (k : Nat)
  | flush (k : Nat)
  | uc
  deriving DecidableEq, Repr

def ReadUnit.dest {c : Cfg} : ReadUnit c → ReadDest
  | .miss set way => .miss set way
  | .uc => .uc

def WriteUnit.dest {c : Cfg} : WriteUnit c → WriteDest
  | .wbuf k _ => .wbuf k
  | .flush k _ => .flush k
  | .uc => .uc

theorem ReadUnit.dest_injective {c : Cfg} : Function.Injective (ReadUnit.dest (c := c)) := by
  intro x y h
  cases x <;> cases y <;> simp_all [ReadUnit.dest, Fin.ext_iff]

theorem WriteUnit.dest_injective {c : Cfg} : Function.Injective (WriteUnit.dest (c := c)) := by
  intro x y h
  cases x <;> cases y <;> simp_all [WriteUnit.dest, Fin.ext_iff]

namespace IdCfg

variable (k : IdCfg)

/-- Identifiers on the memory channels. -/
abbrev MemId := BitVec k.memIdWidth

def mshrSetWidth : Nat := if 1 < k.cfg.mshrSets then Nat.clog 2 k.cfg.mshrSets else 1

def mshrWayWidth : Nat := if 1 < k.cfg.mshrWays then Nat.clog 2 k.cfg.mshrWays else 1

def wbufDirPtrWidth : Nat := Nat.clog 2 k.cfg.wbufDirEntries

def flushIndexWidth : Nat := if 1 < k.cfg.flushEntries then Nat.clog 2 k.cfg.flushEntries else 1

/-- The identifier of the uncacheable handler, for reads and for writes. -/
def ucId : k.MemId := BitVec.allOnes k.memIdWidth

/-! ## Encoders -/

/-- The identifier of a miss: the way above the set. -/
def missId (set : Fin k.cfg.mshrSets) (way : Fin k.cfg.mshrWays) : k.MemId :=
  if 1 < k.cfg.mshrSets ∧ 1 < k.cfg.mshrWays then
    BitVec.ofNat _ (way.val * 2 ^ k.mshrSetWidth + set.val % 2 ^ k.mshrSetWidth)
  else if 1 < k.cfg.mshrSets then BitVec.ofNat _ (set.val % 2 ^ k.mshrSetWidth)
  else if 1 < k.cfg.mshrWays then BitVec.ofNat _ way.val
  else 0

/-- The identifier that the write buffer gives. -/
def wbufId (e : Fin k.cfg.wbufDirEntries) : k.MemId := BitVec.ofNat _ e.val

/-- The identifier that the flush controller gives. -/
def flushId (e : Fin k.cfg.flushEntries) : k.MemId := BitVec.ofNat _ e.val

/-- The lower bits of an identifier, under the upper bit `b`. -/
def tagId (b : Bool) (id : k.MemId) : k.MemId :=
  BitVec.ofNat _ (b.toNat * 2 ^ (k.memIdWidth - 1) + id.toNat % 2 ^ (k.memIdWidth - 1))

/-- The identifiers on the read channel. -/
def readId : ReadUnit k.cfg → k.MemId
  | .miss set way => k.missId set way
  | .uc => k.ucId

/-- The identifiers on the write channel, in three segments of the ID space. -/
def writeId : WriteUnit k.cfg → k.MemId
  | .wbuf e _ => k.tagId false (k.wbufId e)
  | .flush e _ => k.tagId true (k.flushId e)
  | .uc => k.ucId

/-! ## Decoders -/

def ackSet (id : k.MemId) : Nat :=
  if 1 < k.cfg.mshrSets then (id.extractLsb' 0 k.mshrSetWidth).toNat else 0

def ackWay (id : k.MemId) : Nat :=
  if 1 < k.cfg.mshrSets then
    if 1 < k.cfg.mshrWays then (id.extractLsb' k.mshrSetWidth k.mshrWayWidth).toNat else 0
  else if 1 < k.cfg.mshrWays then (id.extractLsb' 0 k.mshrWayWidth).toNat
  else 0

def wbufAckId (id : k.MemId) : Nat := (id.extractLsb' 0 k.wbufDirPtrWidth).toNat

def flushAckPtr (id : k.MemId) : Nat := (id.extractLsb' 0 k.flushIndexWidth).toNat

/-- The demultiplexer of the read responses. -/
def readDest (id : k.MemId) : ReadDest :=
  if id = k.ucId then .uc else .miss (k.ackSet id) (k.ackWay id)

/-- The demultiplexer of the write responses, which clears the upper bit of the identifier. -/
def writeDest (id : k.MemId) : WriteDest :=
  if id = k.ucId then .uc
  else if id.getLsbD (k.memIdWidth - 1) then .flush (k.flushAckPtr (k.tagId false id))
  else .wbuf (k.wbufAckId (k.tagId false id))

/-! ## Reads -/

variable {k}

theorem two_pow_mshrSetWidth (h : 1 < k.cfg.mshrSets) : 2 ^ k.mshrSetWidth = k.cfg.mshrSets := by
  obtain ⟨n, hn⟩ := k.mshrSets_pow
  rw [mshrSetWidth, if_pos h, hn, Nat.clog_pow 2 n (by decide)]

theorem ways_le_two_pow (h : 1 < k.cfg.mshrWays) : k.cfg.mshrWays ≤ 2 ^ k.mshrWayWidth := by
  rw [mshrWayWidth, if_pos h]
  exact Nat.le_pow_clog (by decide) _

theorem toNat_ucId : k.ucId.toNat = 2 ^ k.memIdWidth - 1 := BitVec.toNat_allOnes

/-- The number that the identifier of a miss stands for is below that of the uncacheable handler. -/
theorem slot_lt (set : Fin k.cfg.mshrSets) (way : Fin k.cfg.mshrWays) :
    way.val * k.cfg.mshrSets + set.val < 2 ^ k.memIdWidth - 1 := by
  have hids := k.mshr_ids
  have hmul : (way.val + 1) * k.cfg.mshrSets ≤ k.cfg.mshrWays * k.cfg.mshrSets :=
    Nat.mul_le_mul_right _ way.isLt
  have hset := set.isLt
  rw [Nat.add_mul, Nat.one_mul] at hmul
  omega

theorem toNat_missId (set : Fin k.cfg.mshrSets) (way : Fin k.cfg.mshrWays) :
    (k.missId set way).toNat = way.val * k.cfg.mshrSets + set.val := by
  have hslot := slot_lt set way
  have hset := set.isLt
  have hway := way.isLt
  unfold missId
  by_cases hs : 1 < k.cfg.mshrSets
  · have hpow := two_pow_mshrSetWidth hs
    by_cases hw : 1 < k.cfg.mshrWays
    · rw [if_pos ⟨hs, hw⟩, hpow, Nat.mod_eq_of_lt hset, BitVec.toNat_ofNat, Nat.mod_eq_of_lt]
      omega
    · have hzero : way.val = 0 := by omega
      rw [hzero, Nat.zero_mul, Nat.zero_add] at hslot ⊢
      rw [if_neg fun h => hw h.2, if_pos hs, hpow, Nat.mod_eq_of_lt hset, BitVec.toNat_ofNat,
        Nat.zero_mul, Nat.zero_add]
      exact Nat.mod_eq_of_lt (by omega)
  · have hone : k.cfg.mshrSets = 1 := by have hpos := k.cfg.mshrSets_pos; omega
    have hzero : set.val = 0 := by omega
    rw [hzero, hone, Nat.mul_one, Nat.add_zero] at hslot
    rw [if_neg fun h => hs h.1, if_neg hs, hzero, hone, Nat.mul_one, Nat.add_zero]
    by_cases hw : 1 < k.cfg.mshrWays
    · rw [if_pos hw, BitVec.toNat_ofNat]
      exact Nat.mod_eq_of_lt (by omega)
    · have hway0 : way.val = 0 := by omega
      rw [if_neg hw, hway0]
      simp

theorem missId_ne_ucId (set : Fin k.cfg.mshrSets) (way : Fin k.cfg.mshrWays) :
    k.missId set way ≠ k.ucId := by
  intro h
  have hslot := slot_lt set way
  have heq := congrArg BitVec.toNat h
  rw [toNat_missId, toNat_ucId] at heq
  omega

theorem ackSet_missId (set : Fin k.cfg.mshrSets) (way : Fin k.cfg.mshrWays) :
    k.ackSet (k.missId set way) = set.val := by
  have hset := set.isLt
  unfold ackSet
  by_cases hs : 1 < k.cfg.mshrSets
  · rw [if_pos hs, BitVec.extractLsb'_toNat, Nat.shiftRight_zero, toNat_missId,
      two_pow_mshrSetWidth hs, Nat.mul_comm, Nat.mul_add_mod, Nat.mod_eq_of_lt hset]
  · rw [if_neg hs]
    omega

theorem ackWay_missId (set : Fin k.cfg.mshrSets) (way : Fin k.cfg.mshrWays) :
    k.ackWay (k.missId set way) = way.val := by
  have hset := set.isLt
  have hway := way.isLt
  have hpos := k.cfg.mshrSets_pos
  unfold ackWay
  by_cases hw : 1 < k.cfg.mshrWays
  · have hlt : way.val < 2 ^ k.mshrWayWidth := Nat.lt_of_lt_of_le hway (ways_le_two_pow hw)
    rw [if_pos hw, if_pos hw]
    by_cases hs : 1 < k.cfg.mshrSets
    · rw [if_pos hs, BitVec.extractLsb'_toNat, toNat_missId, Nat.shiftRight_eq_div_pow,
        two_pow_mshrSetWidth hs, Nat.mul_comm, Nat.mul_add_div hpos, Nat.div_eq_of_lt hset,
        Nat.add_zero, Nat.mod_eq_of_lt hlt]
    · have hone : k.cfg.mshrSets = 1 := by omega
      have hzero : set.val = 0 := by omega
      rw [if_neg hs, BitVec.extractLsb'_toNat, Nat.shiftRight_zero, toNat_missId, hzero, hone,
        Nat.mul_one, Nat.add_zero, Nat.mod_eq_of_lt hlt]
  · rw [if_neg hw, if_neg hw, ite_self]
    omega

/-- A read response goes to the unit and the slot of its transaction. -/
theorem readDest_readId (u : ReadUnit k.cfg) : k.readDest (k.readId u) = u.dest := by
  cases u with
  | miss set way =>
    rw [readId, readDest, if_neg (missId_ne_ucId set way), ackSet_missId, ackWay_missId]
    rfl
  | uc =>
    rw [readId, readDest, if_pos rfl]
    rfl

theorem readId_injective : Function.Injective k.readId := by
  intro u v h
  apply ReadUnit.dest_injective
  rw [← readDest_readId, ← readDest_readId, h]

/-! ## Writes -/

theorem memIdWidth_pos : 0 < k.memIdWidth := by
  by_contra h
  have hzero : k.memIdWidth = 0 := by omega
  have hids := k.mshr_ids
  have hpos := Nat.mul_pos k.cfg.mshrWays_pos k.cfg.mshrSets_pos
  rw [hzero] at hids
  omega

theorem two_pow_memIdWidth : 2 ^ k.memIdWidth = 2 * 2 ^ (k.memIdWidth - 1) := by
  have hpos := k.memIdWidth_pos
  rw [← Nat.pow_succ', Nat.succ_eq_add_one, Nat.sub_add_cancel hpos]

/-- An entry under the upper bit `b`. -/
theorem toNat_tagId {b : Bool} {id : k.MemId} :
    (k.tagId b id).toNat = b.toNat * 2 ^ (k.memIdWidth - 1) + id.toNat % 2 ^ (k.memIdWidth - 1) := by
  have htwo := k.two_pow_memIdWidth
  have hlow := Nat.mod_lt id.toNat (Nat.two_pow_pos (k.memIdWidth - 1))
  rw [tagId, BitVec.toNat_ofNat, Nat.mod_eq_of_lt]
  cases b
  · simp only [Bool.toNat_false]
    omega
  · simp only [Bool.toNat_true]
    omega

/-- The upper bit tells the flush controller from the write buffer. -/
theorem upper_tagId {b : Bool} {id : k.MemId} :
    (k.tagId b id).getLsbD (k.memIdWidth - 1) = b := by
  have hlow := Nat.mod_lt id.toNat (Nat.two_pow_pos (k.memIdWidth - 1))
  rw [BitVec.getLsbD, Nat.testBit_eq_decide_div_mod_eq, toNat_tagId, Nat.mul_comm,
    Nat.mul_add_div (Nat.two_pow_pos _), Nat.div_eq_of_lt hlow]
  cases b <;> decide

theorem tagId_ne_ucId {b : Bool} {id : k.MemId}
    (h : b.toNat * 2 ^ (k.memIdWidth - 1) + id.toNat % 2 ^ (k.memIdWidth - 1) + 1 <
      2 ^ k.memIdWidth) : k.tagId b id ≠ k.ucId := by
  intro heq
  have hnat := congrArg BitVec.toNat heq
  rw [toNat_tagId, toNat_ucId] at hnat
  omega

theorem tagId_false_tagId {b : Bool} {id : k.MemId} : k.tagId false (k.tagId b id) =
    k.tagId false id := by
  apply BitVec.eq_of_toNat_eq
  rw [toNat_tagId, toNat_tagId, toNat_tagId, Nat.mul_comm, Nat.mul_comm b.toNat,
    Nat.mul_add_mod, Nat.mod_mod]

/-- The lower bits of the identifier of an entry are the entry. -/
theorem low_ofNat {e : Nat} (h : e < 2 ^ (k.memIdWidth - 1)) :
    (BitVec.ofNat k.memIdWidth e).toNat % 2 ^ (k.memIdWidth - 1) = e := by
  have htwo := k.two_pow_memIdWidth
  have hlt : e < 2 ^ k.memIdWidth := by omega
  rw [BitVec.toNat_ofNat, Nat.mod_eq_of_lt hlt, Nat.mod_eq_of_lt h]

theorem toNat_low {e : Nat} (h : e < 2 ^ (k.memIdWidth - 1)) :
    (k.tagId false (BitVec.ofNat _ e)).toNat = e := by
  rw [toNat_tagId, low_ofNat h, Bool.toNat_false, Nat.zero_mul, Nat.zero_add]

theorem wbuf_lt (h : k.cfg.wtEn = true) (e : Fin k.cfg.wbufDirEntries) :
    e.val < 2 ^ (k.memIdWidth - 1) := Nat.lt_of_lt_of_le e.isLt (k.wbuf_ids h)

theorem flush_lt (h : k.cfg.wbEn = true) (e : Fin k.cfg.flushEntries) :
    e.val + 1 < 2 ^ (k.memIdWidth - 1) := by
  have hids := k.flush_ids h
  have hlt := e.isLt
  omega

theorem flushEntries_le_two_pow : k.cfg.flushEntries ≤ 2 ^ k.flushIndexWidth := by
  unfold flushIndexWidth
  by_cases h : 1 < k.cfg.flushEntries
  · rw [if_pos h]
    exact Nat.le_pow_clog (by decide) _
  · rw [if_neg h]
    omega

theorem writeDest_wbuf (h : k.cfg.wtEn = true) (e : Fin k.cfg.wbufDirEntries) :
    k.writeDest (k.tagId false (k.wbufId e)) = .wbuf e.val := by
  have htwo := k.two_pow_memIdWidth
  have hlt := wbuf_lt h e
  have hne : k.tagId false (k.wbufId e) ≠ k.ucId := by
    apply tagId_ne_ucId
    rw [wbufId, low_ofNat hlt, Bool.toNat_false]
    omega
  rw [writeDest, if_neg hne, upper_tagId, if_neg Bool.false_ne_true, tagId_false_tagId, wbufAckId,
    BitVec.extractLsb'_toNat, Nat.shiftRight_zero, wbufId, toNat_low hlt, Nat.mod_eq_of_lt]
  exact Nat.lt_of_lt_of_le e.isLt (Nat.le_pow_clog (by decide) _)

theorem writeDest_flush (h : k.cfg.wbEn = true) (e : Fin k.cfg.flushEntries) :
    k.writeDest (k.tagId true (k.flushId e)) = .flush e.val := by
  have htwo := k.two_pow_memIdWidth
  have hlt := flush_lt h e
  have hne : k.tagId true (k.flushId e) ≠ k.ucId := by
    apply tagId_ne_ucId
    rw [flushId, low_ofNat (Nat.lt_of_succ_lt hlt), Bool.toNat_true]
    omega
  rw [writeDest, if_neg hne, upper_tagId, if_pos rfl, tagId_false_tagId, flushAckPtr,
    BitVec.extractLsb'_toNat, Nat.shiftRight_zero, flushId, toNat_low (Nat.lt_of_succ_lt hlt),
    Nat.mod_eq_of_lt]
  exact Nat.lt_of_lt_of_le e.isLt k.flushEntries_le_two_pow

/-- A write response goes to the unit and the entry of its transaction. -/
theorem writeDest_writeId (u : WriteUnit k.cfg) : k.writeDest (k.writeId u) = u.dest := by
  cases u with
  | wbuf e h => exact writeDest_wbuf h e
  | flush e h => exact writeDest_flush h e
  | uc =>
    rw [writeId, writeDest, if_pos rfl]
    rfl

theorem writeId_injective : Function.Injective k.writeId := by
  intro u v h
  apply WriteUnit.dest_injective
  rw [← writeDest_writeId, ← writeDest_writeId, h]

end IdCfg

end Hpdcache
