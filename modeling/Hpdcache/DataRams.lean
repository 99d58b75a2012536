import Hpdcache.MemCtrl

/-!
# The cuts of the data RAM

The data of the cache is spread over RAM cuts of one word. A row of cuts holds the ways that share a
RAM word, a column holds one of the words of an access, and at an address there is a chunk of a
line. The controller of the data RAM keeps the same content by set, way and byte of the line. This
file compares the two.

* `MemCtrl.dataWe_iff` — the bytes that a cycle writes.
* `MemCtrl.dataRam_step_iff` — what is read of a word after a cycle.
* `DataRams.step` — a cycle of all the cuts, under the chip selects of the source.
* `MemCtrl.setToDataRamAddr_eq_iff` — two chunks of the cache share an address only if they are the
  same.
* `MemCtrl.accessSize_cs` — an access of at most 64 bytes selects all the columns.
* `DataRams.Holds.step` — what the controller keeps is what the cuts hold, in every cycle.
-/

namespace Hpdcache

open Hw

variable {c : Cfg}

/-! ## A cut -/

/-- A RAM with one port, and what it has read last. A word has lanes with a write enable each. -/
structure Sram (κ α : Type*) where
  mem : Nat → κ → α
  rdata : κ → α

structure SramPort (κ α : Type*) where
  cs : Bool
  we : Bool
  addr : Nat
  wdata : κ → α
  wbyteenable : κ → Bool

def Sram.step {κ α : Type*} (r : Sram κ α) (p : SramPort κ α) : Sram κ α where
  mem := fun a k =>
    if p.cs && p.we && decide (a = p.addr) && p.wbyteenable k then p.wdata k else r.mem a k
  rdata := fun k => if p.cs && !p.we then r.mem p.addr k else r.rdata k

/-- A line has a whole number of words of the request. -/
theorem Cfg.reqBytes_dvd_clBytes (c : Cfg) : c.reqBytes ∣ c.clBytes := by
  rw [Cfg.reqBytes, Cfg.clBytes]
  exact Nat.mul_dvd_mul_right (Nat.dvd_trans c.reqWords_dvd c.accessWords_dvd) _

namespace MemCtrl

/-! ## Addresses -/

/-- Addresses of a set in a cut. -/
def dataRamEntrPerSet (c : Cfg) : Nat := c.clWords / c.accessWords

def dataRamAddrWidth (c : Cfg) : Nat := Nat.clog 2 (c.sets * dataRamEntrPerSet c)

def setToDataRamAddr (set : Fin c.sets) (word : Nat) : Nat :=
  (set.val * dataRamEntrPerSet c + word / c.accessWords) % 2 ^ dataRamAddrWidth c

theorem chunk_lt {word : Nat} (h : word < c.clWords) :
    word / c.accessWords < dataRamEntrPerSet c := by
  rw [Nat.div_lt_iff_lt_mul c.accessWords_pos, dataRamEntrPerSet,
    Nat.div_mul_cancel c.accessWords_dvd]
  exact h

/-- The address is not truncated. -/
theorem setToDataRamAddr_eq (set : Fin c.sets) {word : Nat} (h : word < c.clWords) :
    setToDataRamAddr set word = set.val * dataRamEntrPerSet c + word / c.accessWords := by
  apply Nat.mod_eq_of_lt
  calc set.val * dataRamEntrPerSet c + word / c.accessWords
      < set.val * dataRamEntrPerSet c + dataRamEntrPerSet c := Nat.add_lt_add_left (chunk_lt h) _
    _ = (set.val + 1) * dataRamEntrPerSet c := (Nat.succ_mul _ _).symm
    _ ≤ c.sets * dataRamEntrPerSet c := Nat.mul_le_mul_right _ set.isLt
    _ ≤ 2 ^ dataRamAddrWidth c := Nat.le_pow_clog (by decide) _

theorem setToDataRamAddr_eq_iff {set set' : Fin c.sets} {word word' : Nat} (h : word < c.clWords)
    (h' : word' < c.clWords) : setToDataRamAddr set word = setToDataRamAddr set' word' ↔
      set = set' ∧ word / c.accessWords = word' / c.accessWords := by
  rw [setToDataRamAddr_eq set h, setToDataRamAddr_eq set' h']
  have hlt := chunk_lt h
  have hlt' := chunk_lt h'
  have hpos : 0 < dataRamEntrPerSet c := Nat.lt_of_le_of_lt (Nat.zero_le _) hlt
  constructor
  · intro heq
    have hdiv := congrArg (· / dataRamEntrPerSet c) heq
    have hmod := congrArg (· % dataRamEntrPerSet c) heq
    simp only [Nat.mul_comm _ (dataRamEntrPerSet c), Nat.mul_add_div hpos, Nat.mul_add_mod,
      Nat.div_eq_of_lt hlt, Nat.div_eq_of_lt hlt', Nat.mod_eq_of_lt hlt, Nat.mod_eq_of_lt hlt',
      Nat.add_zero] at hdiv hmod
    exact ⟨Fin.ext hdiv, hmod⟩
  · rintro ⟨rfl, heq⟩
    rw [heq]

/-! ## Bytes of a line -/

/-- The column of a byte of the line. -/
theorem col_eq (b : Nat) : b % c.accessBytes / c.wordBytes = b / c.wordBytes % c.accessWords := by
  rw [Cfg.accessBytes, Nat.mul_comm, Nat.mod_mul_right_div_self]

theorem col_lt {a : Nat} (h : a < c.accessBytes) : a / c.wordBytes < c.accessWords := by
  rw [Nat.div_lt_iff_lt_mul c.wordBytes_pos]
  exact h

/-- The chunk of a byte of the line. -/
theorem chunk_eq (b : Nat) : b / c.wordBytes / c.accessWords = b / c.accessBytes := by
  rw [Nat.div_div_eq_div_mul, Nat.mul_comm, Cfg.accessBytes]

theorem word_lt {b : Nat} (h : b < c.clBytes) : b / c.wordBytes < c.clWords := by
  rw [Nat.div_lt_iff_lt_mul c.wordBytes_pos]
  exact h

/-- A byte of an access, in its line. -/
theorem lineByte_lt {word a : Nat} (h : word < c.clWords) (ha : a < c.accessBytes) :
    word / c.accessWords * c.accessBytes + a < c.clBytes := by
  have hlt := chunk_lt h
  calc word / c.accessWords * c.accessBytes + a
      < (word / c.accessWords + 1) * c.accessBytes := by rw [Nat.succ_mul]; omega
    _ ≤ dataRamEntrPerSet c * c.accessBytes := Nat.mul_le_mul_right _ hlt
    _ = c.clBytes := by
      rw [dataRamEntrPerSet, Cfg.accessBytes, ← Nat.mul_assoc,
        Nat.div_mul_cancel c.accessWords_dvd, Cfg.clBytes]

theorem lineByte_div {n a : Nat} (ha : a < c.accessBytes) :
    (n * c.accessBytes + a) / c.accessBytes = n := by
  have hpos : 0 < c.accessBytes := Nat.lt_of_le_of_lt (Nat.zero_le _) ha
  rw [Nat.mul_comm, Nat.mul_add_div hpos, Nat.div_eq_of_lt ha, Nat.add_zero]

theorem lineByte_mod {n a : Nat} (ha : a < c.accessBytes) :
    (n * c.accessBytes + a) % c.accessBytes = a := by
  rw [Nat.mul_comm, Nat.mul_add_mod, Nat.mod_eq_of_lt ha]

/-- A byte of a word, in the access and in the line. -/
theorem mod_wordBytes (b : Nat) : b % c.accessBytes % c.wordBytes = b % c.wordBytes :=
  Nat.mod_mod_of_dvd _ ⟨c.accessWords, Nat.mul_comm _ _⟩

/-- An access is in the chunk and at the lanes of a request exactly when its byte is in the block of
the request. -/
theorem request_block {word b : Nat} :
    (b / c.accessBytes = word / c.accessWords ∧
      b % c.accessBytes / c.reqBytes = word / c.reqWords % (c.accessWords / c.reqWords)) ↔
      b / c.reqBytes = word / c.reqWords := by
  have hchunk : b / c.accessBytes = b / c.reqBytes / (c.accessWords / c.reqWords) := by
    rw [Cfg.accessBytes_eq, Nat.div_div_eq_div_mul]
  have hword : word / c.accessWords = word / c.reqWords / (c.accessWords / c.reqWords) := by
    rw [Nat.div_div_eq_div_mul, Nat.mul_div_cancel' c.reqWords_dvd]
  have hlane : b % c.accessBytes / c.reqBytes =
      b / c.reqBytes % (c.accessWords / c.reqWords) := by
    rw [Cfg.accessBytes_eq, Nat.mod_mul_right_div_self]
  rw [hword, hlane, hchunk]
  constructor
  · rintro ⟨h1, h2⟩
    rw [← Nat.div_add_mod (b / c.reqBytes) (c.accessWords / c.reqWords), h1, h2, Nat.div_add_mod]
  · intro h
    rw [h]
    exact ⟨rfl, rfl⟩

/-- The block of a request, from the offset of its bytes. -/
theorem reqBlock_eq (off : Nat) : off / c.wordBytes / c.reqWords = off / c.reqBytes := by
  rw [Nat.div_div_eq_div_mul, Nat.mul_comm, Cfg.reqBytes]

theorem mod_reqBytes (b : Nat) : b % c.accessBytes % c.reqBytes = b % c.reqBytes :=
  Nat.mod_mod_of_dvd _ ⟨_, c.accessBytes_eq⟩

/-! ## Columns -/

/-- Bytes that the chip selects reach for a size. -/
def spanBytes (size : Nat) : Nat :=
  if size ≤ 3 then 8 else if size = 4 then 16 else if size = 5 then 32 else 64

theorem computeDataRamCs_eq_true {size word j : Nat} : computeDataRamCs c size word j = true ↔
    word % c.accessWords ≤ j ∧ j < word % c.accessWords + spanBytes size / c.wordBytes := by
  rw [computeDataRamCs, decide_eq_true_eq]
  rfl

theorem pow_le_spanBytes {size : Nat} (h : 2 ^ size ≤ 64) : 2 ^ size ≤ spanBytes size := by
  unfold spanBytes
  split_ifs with h3 h4 h5
  · exact Nat.pow_le_pow_right (by decide) h3
  · rw [h4]
    decide
  · rw [h5]
    decide
  · exact h

/-- An access of at most 64 bytes selects all the columns. -/
theorem accessSize_cs {word j : Nat} (hle : c.accessBytes ≤ 64) (hw : word % c.accessWords = 0)
    (hj : j < c.accessWords) : computeDataRamCs c (accessSize c) word j = true := by
  have hclog : Nat.clog 2 c.accessBytes ≤ 6 := Nat.clog_le_of_le_pow hle
  have hsize : accessSize c = Nat.clog 2 c.accessBytes := Nat.mod_eq_of_lt (by omega)
  have hpow : 2 ^ accessSize c ≤ 64 := by
    rw [hsize]
    exact Nat.pow_le_pow_right (by decide) hclog
  have hbytes : c.accessBytes ≤ spanBytes (accessSize c) := by
    calc c.accessBytes ≤ 2 ^ Nat.clog 2 c.accessBytes := Nat.le_pow_clog (by decide) _
      _ = 2 ^ accessSize c := by rw [hsize]
      _ ≤ spanBytes (accessSize c) := pow_le_spanBytes hpow
  have hcol : c.accessWords ≤ spanBytes (accessSize c) / c.wordBytes := by
    rw [Nat.le_div_iff_mul_le c.wordBytes_pos]
    exact hbytes
  rw [computeDataRamCs_eq_true, hw]
  omega

/-- The column of an operation that is narrower than a word is the one of its word. -/
theorem cs_of_narrow {size word b : Nat} (hs : size = 2 ∨ size = 3) (hn : 2 ^ size < c.wordBytes)
    (hb : b / c.reqBytes = word / c.reqWords) :
    computeDataRamCs c size word (b % c.accessBytes / c.wordBytes) = true ↔
      b / c.wordBytes = word := by
  have hspan : spanBytes size / c.wordBytes = 1 := by
    rcases c.wordBytes_eq with hw | hw <;> rcases hs with hs | hs <;> rw [hs, hw] at hn
    · exact absurd hn (by decide)
    · exact absurd hn (by decide)
    · rw [hs, hw]
      rfl
    · exact absurd hn (by decide)
  have hchunk : b / c.wordBytes / c.accessWords = word / c.accessWords := by
    rw [chunk_eq]
    exact (request_block.2 hb).1
  rw [computeDataRamCs_eq_true, hspan, col_eq]
  constructor
  · intro h
    rw [← Nat.div_add_mod (b / c.wordBytes) c.accessWords, hchunk,
      show b / c.wordBytes % c.accessWords = word % c.accessWords by omega, Nat.div_add_mod]
  · intro h
    rw [h]
    omega

/-! ## Selection of a way -/

/-- The row and the position in the RAM word select the way of an access. -/
theorem row_of_way {way : Bits c.ways} (h : OneHot way) (v : Fin c.ways) :
    (wayToDataRamRow way (dataRow v) = true ∧
      v.val % c.dataWaysPerRamWord = wayToDataRamWord way) ↔ way v = true := by
  rw [wayToDataRamRow, decide_eq_true_eq]
  constructor
  · rintro ⟨⟨w, hw, hdiv⟩, hmod⟩
    have hword : wayToDataRamWord way = w.val % c.dataWaysPerRamWord := by
      rw [wayToDataRamWord, h.first? hw]
    have hvw : v = w := by
      apply Fin.ext
      rw [← Nat.div_add_mod v.val c.dataWaysPerRamWord, hmod, hword,
        ← (show w.val / c.dataWaysPerRamWord = v.val / c.dataWaysPerRamWord from hdiv),
        Nat.div_add_mod]
    rw [hvw]
    exact hw
  · intro hv
    refine ⟨⟨v, hv, rfl⟩, ?_⟩
    rw [wayToDataRamWord, h.first? hv]

section Write

variable {m : MemCtrl c} {i : MemIn c}

/-- **The write of a cycle.** A byte is written when its set, its way, its chunk and its column are
those of the access, and it is enabled. -/
theorem dataWe_iff (h : OneHot (dataWay i)) (set : Fin c.sets) (v : Fin c.ways) (b : Nat) :
    m.dataWe i set v b = true ↔
      (m.dataWrite i).write = true ∧ (m.dataWrite i).enable = true ∧
        set = (m.dataWrite i).set ∧ dataWay i v = true ∧
        b / c.accessBytes = (m.dataWrite i).word / c.accessWords ∧
        computeDataRamCs c (m.dataWrite i).size (m.dataWrite i).word
          (b % c.accessBytes / c.wordBytes) = true ∧
        (m.dataWrite i).be (b % c.accessBytes) = true := by
  rw [dataWe, decide_eq_true_eq, ← row_of_way h v]
  simp only [dataCtrl, Bool.and_eq_true]
  constructor
  · rintro ⟨⟨hen, hrow, hwr, hcs⟩, hset, hchunk, hword, hbe⟩
    rw [if_pos ⟨hwr, hcs⟩] at hset hchunk
    exact ⟨hwr, hen, hset.symm, ⟨hrow, hword⟩, hchunk.symm, hcs, hbe⟩
  · rintro ⟨hwr, hen, hset, ⟨hrow, hword⟩, hchunk, hcs, hbe⟩
    rw [if_pos ⟨hwr, hcs⟩, if_pos ⟨hwr, hcs⟩]
    exact ⟨⟨hen, hrow, hwr, hcs⟩, hset.symm, hchunk.symm, hword, hbe⟩

theorem dataRamNext_eq (h : OneHot (dataWay i)) (set : Fin c.sets) (v : Fin c.ways) (b : Nat) :
    m.dataRamNext i set v b =
      if (m.dataWrite i).write = true ∧ (m.dataWrite i).enable = true ∧
          set = (m.dataWrite i).set ∧ dataWay i v = true ∧
          b / c.accessBytes = (m.dataWrite i).word / c.accessWords ∧
          computeDataRamCs c (m.dataWrite i).size (m.dataWrite i).word
            (b % c.accessBytes / c.wordBytes) = true ∧
          (m.dataWrite i).be (b % c.accessBytes) = true
      then (m.dataWrite i).data (b % c.accessBytes) else m.dataRam set v b :=
  if_congr (dataWe_iff h set v b) rfl rfl

/-! ## Words of the line -/

/-- What the write of the cycle gives for a word of the line. -/
def wordData (m : MemCtrl c) (i : MemIn c) (x : Nat) : Nat → Byte :=
  fun l => (m.dataWrite i).data ((x * c.wordBytes + l) % c.accessBytes)

/-- The bytes of a word of the line that are written in the cycle. -/
def wordBe (m : MemCtrl c) (i : MemIn c) (set : Fin c.sets) (w : Fin c.ways) (x : Nat) :
    Nat → Bool :=
  fun l => m.dataWe i set w (x * c.wordBytes + l)

theorem dataWord_data {set : Fin c.sets} {w : Fin c.ways} {x l : Nat} (hl : l < c.wordBytes) :
    m.dataWord set w x l = m.dataBits set w (x * c.wordBytes + l) :=
  if_pos hl

theorem div_wordBytes {x l : Nat} (hl : l < c.wordBytes) :
    (x * c.wordBytes + l) / c.wordBytes = x ∧ (x * c.wordBytes + l) % c.wordBytes = l := by
  rw [Nat.mul_comm, Nat.mul_add_div c.wordBytes_pos, Nat.mul_add_mod, Nat.div_eq_of_lt hl,
    Nat.mod_eq_of_lt hl, Nat.add_zero]
  exact ⟨rfl, rfl⟩

/-- A content in which all the words are the same. -/
def fill (m : MemCtrl c) (word : Nat → Byte) : MemCtrl c :=
  { m with
    dataBits := fun _ _ b => word (b % c.wordBytes)
    dataCheck := fun _ _ _ => word c.wordBytes }

theorem dataWord_fill (m : MemCtrl c) (word : Nat → Byte) (set : Fin c.sets) (w : Fin c.ways)
    (x : Nat) {l : Nat} (hl : l < c.ramWordBytes) : (m.fill word).dataWord set w x l = word l := by
  show (if l < c.wordBytes then word ((x * c.wordBytes + l) % c.wordBytes) else word c.wordBytes) = _
  split_ifs with hlane
  · rw [(div_wordBytes hlane).2]
  · unfold Cfg.ramWordBytes at hl
    split_ifs at hl
    · exact congrArg word (by omega)
    · omega

/-- A byte of a word, in a group of words. -/
theorem byte_in_words (n x : Nat) {l : Nat} (hl : l < c.wordBytes) :
    (x * c.wordBytes + l) / (n * c.wordBytes) = x / n ∧
      (x * c.wordBytes + l) % (n * c.wordBytes) = x % n * c.wordBytes + l := by
  obtain ⟨hdiv, hmod⟩ := div_wordBytes (x := x) hl
  constructor
  · rw [Nat.mul_comm n, ← Nat.div_div_eq_div_mul, hdiv]
  · rw [Nat.mul_comm n, Nat.mod_mul, hdiv, hmod, Nat.mul_comm, Nat.add_comm]

/-- A word of the line after the cycle. -/
theorem dataWord_step (set : Fin c.sets) (w : Fin c.ways) (x : Nat) {l : Nat}
    (hl : l < c.ramWordBytes) :
    (m.step i).dataWord set w x l =
      c.ramWrite (m.dataWord set w x) (m.wordData i x) (m.wordBe i set w x) l := by
  show (if l < c.wordBytes then m.dataBitsNext i set w (x * c.wordBytes + l)
    else m.dataCheckNext i set w x) = _
  unfold Cfg.ramWrite
  by_cases hlane : l < c.wordBytes
  · have hdata : c.ramData (m.wordData i x) l = m.wordData i x l := by
      unfold Cfg.ramData
      split_ifs
      · exact Cfg.eccEncode_data hlane
      · rfl
    rw [if_pos hlane, Cfg.min_lane hlane, hdata, dataWord_data hlane]
    rfl
  · unfold Cfg.ramWordBytes at hl
    have hecc : c.eccEn = true := by
      by_contra hno
      rw [if_neg hno] at hl
      exact hlane hl
    rw [if_pos hecc] at hl
    have hlast : l = c.wordBytes := by omega
    have hmin : min c.wordBytes (c.wordBytes - 1) = c.wordBytes - 1 := by omega
    rw [if_neg hlane, hlast, hmin, dataCheckNext, hecc, Bool.true_and, Cfg.ramData, if_pos hecc,
      dataWord, if_neg (Nat.lt_irrefl _)]
    rfl

/-- A byte of the line after the cycle. -/
theorem dataRam_step (set : Fin c.sets) (w : Fin c.ways) (b : Nat) :
    (m.step i).dataRam set w b =
      c.ramRead (c.ramWrite (m.dataWord set w (b / c.wordBytes)) (m.wordData i (b / c.wordBytes))
        (m.wordBe i set w (b / c.wordBytes))) (b % c.wordBytes) :=
  Cfg.ramRead_congr (fun _ hl => dataWord_step set w _ hl) (Nat.mod_lt _ c.wordBytes_pos)

theorem dataRamNext_lane (set : Fin c.sets) (w : Fin c.ways) (x : Nat) {l : Nat}
    (hl : l < c.wordBytes) :
    m.dataRamNext i set w (x * c.wordBytes + l) =
      if m.wordBe i set w x l then m.wordData i x l else c.ramRead (m.dataWord set w x) l := by
  obtain ⟨hdiv, hmod⟩ := div_wordBytes (x := x) hl
  unfold dataRamNext dataRam
  rw [hdiv, hmod]
  rfl

/-- The content of a word is that of a RAM of bytes exactly when its write merges. -/
theorem dataRam_step_iff (set : Fin c.sets) (w : Fin c.ways) (x : Nat) :
    (∀ l < c.wordBytes, (m.step i).dataRam set w (x * c.wordBytes + l) =
      m.dataRamNext i set w (x * c.wordBytes + l)) ↔
      c.Merges (m.dataWord set w x) (m.wordData i x) (m.wordBe i set w x) := by
  refine forall₂_congr fun l hl => ?_
  obtain ⟨hdiv, hmod⟩ := div_wordBytes (x := x) hl
  rw [dataRam_step, dataRamNext_lane set w x hl, hdiv, hmod]

theorem dataRam_step_eq {set : Fin c.sets} {w : Fin c.ways} {b : Nat}
    (h : c.Merges (m.dataWord set w (b / c.wordBytes)) (m.wordData i (b / c.wordBytes))
      (m.wordBe i set w (b / c.wordBytes))) :
    (m.step i).dataRam set w b = m.dataRamNext i set w b := by
  have hb := (dataRam_step_iff set w _).2 h (b % c.wordBytes) (Nat.mod_lt _ c.wordBytes_pos)
  rwa [Nat.div_add_mod'] at hb

/-- Without a write the content stays. -/
theorem dataRam_keep (h : ∀ set w b, m.dataWe i set w b = false) :
    (m.step i).dataRam = m.dataRam := by
  funext set w b
  rw [dataRam_step_eq (Cfg.merges_of_none fun l _ => h set w _), dataRamNext, h set w b]
  rfl

theorem dataWe_eq_false (h : ((m.dataWrite i).write && (m.dataWrite i).enable) = false)
    (set : Fin c.sets) (w : Fin c.ways) (b : Nat) : m.dataWe i set w b = false := by
  rw [dataWe, decide_eq_false_iff_not]
  rintro ⟨hwe, -⟩
  simp only [dataCtrl, Bool.and_eq_true] at hwe
  rw [hwe.2.2.1, hwe.1] at h
  exact absurd h (by decide)

/-- The bytes of a word that are written are those enabled, when the access is for the word. -/
theorem wordBe_eq (hone : OneHot (dataWay i)) (set : Fin c.sets) (w : Fin c.ways) (x : Nat)
    {l : Nat} (hl : l < c.wordBytes) : m.wordBe i set w x l =
      (decide ((m.dataWrite i).write = true ∧ (m.dataWrite i).enable = true ∧
        set = (m.dataWrite i).set ∧ dataWay i w = true ∧
        x / c.accessWords = (m.dataWrite i).word / c.accessWords ∧
        computeDataRamCs c (m.dataWrite i).size (m.dataWrite i).word (x % c.accessWords) = true) &&
      (m.dataWrite i).be ((x * c.wordBytes + l) % c.accessBytes)) := by
  have hchunk : (x * c.wordBytes + l) / c.accessBytes = x / c.accessWords :=
    (byte_in_words c.accessWords x hl).1
  have hcol : (x * c.wordBytes + l) % c.accessBytes / c.wordBytes = x % c.accessWords := by
    rw [col_eq, (div_wordBytes hl).1]
  rw [wordBe, Bool.eq_iff_iff, dataWe_iff hone, hchunk, hcol, Bool.and_eq_true, decide_eq_true_eq]
  simp only [and_assoc]

/-- A write that enables whole words merges. -/
theorem merges_of_words (hone : OneHot (dataWay i)) (set : Fin c.sets) (w : Fin c.ways) {x : Nat}
    (h : c.Whole fun l => (m.dataWrite i).be ((x * c.wordBytes + l) % c.accessBytes)) :
    c.Merges (m.dataWord set w x) (m.wordData i x) (m.wordBe i set w x) := by
  apply Cfg.merges_of_whole
  intro l hl
  have hlast : c.wordBytes - 1 < c.wordBytes := Nat.sub_lt c.wordBytes_pos Nat.one_pos
  rw [wordBe_eq hone set w x hl, wordBe_eq hone set w x hlast]
  exact congrArg (_ && ·) (h l hl)

/-- A write that enables all the bytes of an access merges. -/
theorem merges_of_be (hone : OneHot (dataWay i)) (h : ∀ a, (m.dataWrite i).be a = true)
    (set : Fin c.sets) (w : Fin c.ways) (x : Nat) :
    c.Merges (m.dataWord set w x) (m.wordData i x) (m.wordBe i set w x) := by
  apply merges_of_words hone
  intro l _
  exact (h _).trans (h _).symm

/-- The enable of a request is for whole words of the access when it is for whole words of the
request. -/
theorem whole_upsizeBe {be : Nat → Bool} (h : c.WholeWords be) (word x : Nat) :
    c.Whole fun l => upsizeBe c word be ((x * c.wordBytes + l) % c.accessBytes) := by
  have hlane : ∀ l < c.wordBytes, (x * c.wordBytes + l) % c.accessBytes / c.reqBytes =
      x % c.accessWords / c.reqWords ∧ (x * c.wordBytes + l) % c.accessBytes % c.reqBytes =
        x % c.accessWords % c.reqWords * c.wordBytes + l := by
    intro l hl
    rw [Cfg.accessBytes, (byte_in_words c.accessWords x hl).2]
    exact byte_in_words c.reqWords _ hl
  have hlast : c.wordBytes - 1 < c.wordBytes := Nat.sub_lt c.wordBytes_pos Nat.one_pos
  intro l hl
  dsimp only
  rw [upsizeBe, upsizeBe, (hlane l hl).1, (hlane l hl).2, (hlane _ hlast).1, (hlane _ hlast).2]
  congr 1
  exact h _ (Nat.mod_lt _ c.reqWords_pos) l hl

end Write

end MemCtrl

/-! ## All the cuts -/

/-- The cuts, by row and column. The lanes of a cut are the bytes of the words of its ways, with the
check byte behind them. -/
abbrev DataRams (c : Cfg) : Type :=
  Fin (c.ways / c.dataWaysPerRamWord) → Nat → Sram (Nat × Nat) Byte

namespace DataRams

open MemCtrl

/-- What a cut is asked for in a cycle. -/
def port (wr : DataWrite c) (rd : DataRead c) (way : Bits c.ways)
    (y : Fin (c.ways / c.dataWaysPerRamWord)) (x : Nat) : SramPort (Nat × Nat) Byte :=
  let wordSelRd := rd.read && computeDataRamCs c rd.size rd.word x
  let wordSelWr := (wayToDataRamRow way y && wr.write) && computeDataRamCs c wr.size wr.word x
  { cs := wordSelRd || wordSelWr
    we := wr.enable && wordSelWr
    addr := if wr.write && computeDataRamCs c wr.size wr.word x then setToDataRamAddr wr.set wr.word
      else setToDataRamAddr rd.set rd.word
    -- with ECC the word is encoded, and its check byte takes the enable of its last byte of data
    wdata := fun k => c.ramData (fun l => wr.data (x * c.wordBytes + l)) k.2
    wbyteenable := fun k =>
      decide (k.1 = wayToDataRamWord way) &&
        wr.be (x * c.wordBytes + min k.2 (c.wordBytes - 1)) }

def step (d : DataRams c) (wr : DataWrite c) (rd : DataRead c) (way : Bits c.ways) : DataRams c :=
  fun y x => (d y x).step (port wr rd way y x)

/-- A word of the line in the cuts. -/
def word (d : DataRams c) (set : Fin c.sets) (w : Fin c.ways) (x : Nat) : Nat → Byte :=
  fun l => (d (dataRow w) (x % c.accessWords)).mem (setToDataRamAddr set x)
    (w.val % c.dataWaysPerRamWord, l)

/-- The word that a column has read last in a way. -/
def entry (d : DataRams c) (w : Fin c.ways) (j : Nat) : Nat → Byte :=
  fun l => (d (dataRow w) j).rdata (w.val % c.dataWaysPerRamWord, l)

/-- The cuts hold the content that the controller keeps, and have read last what it has. -/
structure Holds (d : DataRams c) (m : MemCtrl c) : Prop where
  mem : ∀ set w, ∀ x < c.clWords, ∀ l < c.ramWordBytes, d.word set w x l = m.dataWord set w x l
  rdata : ∀ w, ∀ a < c.accessBytes,
    c.ramRead (d.entry w (a / c.wordBytes)) (a % c.wordBytes) = m.dataRentry w a

/-- The words of the accesses are words of a line. -/
structure InLine (m : MemCtrl c) (i : MemIn c) : Prop where
  write : (m.dataWrite i).write = true → (m.dataWrite i).word < c.clWords
  read : (dataRead i).read = true → (dataRead i).word < c.clWords

variable {d : DataRams c} {m : MemCtrl c} {i : MemIn c}

/-- A byte of the line as the cuts give it. -/
theorem Holds.read (h : d.Holds m) (set : Fin c.sets) (w : Fin c.ways) {b : Nat}
    (hb : b < c.clBytes) :
    c.ramRead (d.word set w (b / c.wordBytes)) (b % c.wordBytes) = m.dataRam set w b :=
  Cfg.ramRead_congr (h.mem set w _ (word_lt hb)) (Nat.mod_lt _ c.wordBytes_pos)

/-- A word of the line in the cuts, at the address of a word of its chunk. -/
theorem Holds.mem_at (h : d.Holds m) (set : Fin c.sets) (w : Fin c.ways) {word a : Nat}
    (hw : word < c.clWords) (ha : a < c.accessBytes) :
    c.ramRead (fun l => (d (dataRow w) (a / c.wordBytes)).mem (setToDataRamAddr set word)
        (w.val % c.dataWaysPerRamWord, l)) (a % c.wordBytes) =
      m.dataRam set w (word / c.accessWords * c.accessBytes + a) := by
  have hb := lineByte_lt hw ha
  have haddr : setToDataRamAddr set ((word / c.accessWords * c.accessBytes + a) / c.wordBytes) =
      setToDataRamAddr set word := by
    rw [setToDataRamAddr_eq_iff (word_lt hb) hw, chunk_eq, lineByte_div ha]
    exact ⟨rfl, rfl⟩
  have hlane : (word / c.accessWords * c.accessBytes + a) % c.wordBytes = a % c.wordBytes := by
    rw [← mod_wordBytes, lineByte_mod ha]
  rw [← h.read set w hb, hlane]
  unfold DataRams.word
  rw [haddr, ← col_eq, lineByte_mod ha]

theorem Holds.mem_step (h : d.Holds m) (hi : InLine m i) (set : Fin c.sets) (w : Fin c.ways)
    {x l : Nat} (hx : x < c.clWords) (hl : l < c.ramWordBytes) :
    (d.step (m.dataWrite i) (dataRead i) (dataWay i)).word set w x l =
      (m.step i).dataWord set w x l := by
  have hlane := Cfg.min_lane_lt c l
  obtain ⟨hdiv, -⟩ := div_wordBytes (x := x) hlane
  -- the bytes of the word are those of its column in the access
  have hcol : ∀ n < c.wordBytes,
      (x * c.wordBytes + n) % c.accessBytes = x % c.accessWords * c.wordBytes + n :=
    fun n hn => (byte_in_words c.accessWords x hn).2
  have hdata : c.ramData (fun n => (m.dataWrite i).data (x % c.accessWords * c.wordBytes + n)) l =
      c.ramData (m.wordData i x) l :=
    Cfg.ramData_congr (fun n hn => by rw [wordData, hcol n hn]) hl
  rw [dataWord_step set w x hl, Cfg.ramWrite, ← hdata]
  simp only [word, step, Sram.step, port]
  refine if_congr ?_ rfl (h.mem set w x hx l hl)
  rw [wordBe, dataWe, decide_eq_true_eq, hcol _ hlane, (div_wordBytes hlane).1]
  simp only [dataCtrl, Bool.and_eq_true, Bool.or_eq_true, decide_eq_true_eq]
  rw [← chunk_eq, hdiv]
  constructor
  · rintro ⟨⟨⟨-, hen, ⟨hrow, hwr⟩, hcs⟩, haddr⟩, hword, hbe⟩
    rw [if_pos ⟨hwr, hcs⟩] at haddr ⊢
    rw [setToDataRamAddr_eq_iff hx (hi.write hwr)] at haddr
    rw [if_pos ⟨hwr, hcs⟩]
    exact ⟨⟨hen, hrow, hwr, hcs⟩, haddr.1.symm, haddr.2.symm, hword, hbe⟩
  · rintro ⟨⟨hen, hrow, hwr, hcs⟩, hset, hchunk, hword, hbe⟩
    rw [if_pos ⟨hwr, hcs⟩] at hset hchunk
    rw [if_pos ⟨hwr, hcs⟩, setToDataRamAddr_eq_iff hx (hi.write hwr)]
    exact ⟨⟨⟨.inr ⟨⟨hrow, hwr⟩, hcs⟩, hen, ⟨hrow, hwr⟩, hcs⟩, hset.symm, hchunk.symm⟩, hword, hbe⟩

theorem Holds.rdata_step (h : d.Holds m) (hi : InLine m i) (w : Fin c.ways) {a : Nat}
    (ha : a < c.accessBytes) :
    c.ramRead ((d.step (m.dataWrite i) (dataRead i) (dataWay i)).entry w (a / c.wordBytes))
      (a % c.wordBytes) = (m.step i).dataRentry w a := by
  show _ = m.dataRentryNext i w a
  -- the columns of the cuts and of the controller are asked for the same access
  have hcs : (port (m.dataWrite i) (dataRead i) (dataWay i) (dataRow w) (a / c.wordBytes)).cs =
      (dataCtrl (m.dataWrite i) (dataRead i) (wayToDataRamRow (dataWay i)) (dataRow w)
        (a / c.wordBytes)).cs := by
    simp only [port, dataCtrl, Bool.and_assoc]
  have hwe : (port (m.dataWrite i) (dataRead i) (dataWay i) (dataRow w) (a / c.wordBytes)).we =
      (dataCtrl (m.dataWrite i) (dataRead i) (wayToDataRamRow (dataWay i)) (dataRow w)
        (a / c.wordBytes)).we := by
    simp only [port, dataCtrl, Bool.and_assoc]
  unfold dataRentryNext entry
  simp only [step, Sram.step, hcs, hwe]
  by_cases hread : ((dataCtrl (m.dataWrite i) (dataRead i) (wayToDataRamRow (dataWay i)) (dataRow w)
      (a / c.wordBytes)).cs && !(dataCtrl (m.dataWrite i) (dataRead i)
        (wayToDataRamRow (dataWay i)) (dataRow w) (a / c.wordBytes)).we) = true
  case neg =>
    simp only [if_neg hread]
    exact h.rdata w a ha
  simp only [if_pos hread]
  have hsel := (Bool.and_eq_true_iff.1 hread).1
  simp only [dataCtrl, Bool.and_eq_true, Bool.or_eq_true] at hsel
  cases hwr : (m.dataWrite i).write && computeDataRamCs c (m.dataWrite i).size (m.dataWrite i).word
      (a / c.wordBytes) with
  | true =>
    simp only [port, dataCtrl, hwr, if_true]
    rw [Bool.and_eq_true] at hwr
    exact h.mem_at _ w (hi.write hwr.1) ha
  | false =>
    have hrd : (dataRead i).read = true := by
      rcases hsel with hsel | hsel
      · exact hsel.1
      · rw [hsel.2.1, hsel.2.2] at hwr
        contradiction
    simp only [port, dataCtrl, hwr, Bool.false_eq_true, if_false]
    exact h.mem_at _ w (hi.read hrd) ha

/-- What the controller keeps is what the cuts hold. -/
theorem Holds.step (h : d.Holds m) (hi : InLine m i) :
    (d.step (m.dataWrite i) (dataRead i) (dataWay i)).Holds (m.step i) where
  mem set w _ hx _ hl := h.mem_step hi set w hx hl
  rdata w _ ha := h.rdata_step hi w ha

end DataRams

end Hpdcache
