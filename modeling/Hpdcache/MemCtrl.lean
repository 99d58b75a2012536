import Hpdcache.EccWord
import Hpdcache.Victim

/-!
# Directory and data RAMs

The RAM controller: the multiplexers in front of the single port of the directory and of the data
RAM, the RAMs with the word that they have read last, and the lookups made in it.

The directory is written by whole entries, and is kept as decoded. The data RAM is written by bytes:
with ECC it is kept as it is stored, data and check bits, and each word is decoded when it is read.
The flags of the ECC decoders are inputs of the controller.

* `MemCtrl.dirCtrl` — the multiplexer of the directory port, in the order of the source.
* `MemCtrl.dataWrite`, `MemCtrl.dataRead` — the two multiplexers of the data port.
* `MemCtrl.dataRam` — the content of the data RAM, as its decoders give it.
* `MemCtrl.step` — one cycle.
-/

namespace Hpdcache

open Hw

/-- Requests on the directory and the data RAM. -/
structure MemIn (c : Cfg) where
  dirMatch : Bool
  dirMatchSet : Fin c.sets
  dirMatchTag : Nat
  dirUpdtSelVictim : Bool
  dirUpdt : Bool
  dirUpdtSet : Fin c.sets
  dirUpdtWay : Bits c.ways
  dirUpdtEntry : DirEntry
  dirRefill : Bool
  dirRefillSet : Fin c.sets
  dirRefillWay : Bits c.ways
  dirRefillEntry : DirEntry
  dirRefillUpdtSelVictim : Bool
  dirVictimSel : Bool
  dirVictimSet : Fin c.sets
  dirInvalCheck : Bool
  dirInvalNline : Nline c
  dirInvalWrite : Bool
  dirCmoCheckNline : Bool
  dirCmoCheckNlineSet : Fin c.sets
  dirCmoCheckEntry : Bool
  dirCmoCheckEntrySet : Fin c.sets
  dirCmoCheckEntryWay : Bits c.ways
  dirCmoUpdt : Bool
  dirCmoUpdtSet : Fin c.sets
  dirCmoUpdtWay : Bits c.ways
  dirCmoUpdtEntry : DirEntry
  dirErrSet : Fin c.sets
  dirErrWay : Bits c.ways
  dirErrRead : Bool
  dirErrWrite : Bool
  dirErrWdata : DirEntry
  dataReqRead : Bool
  dataReqReadSet : Fin c.sets
  dataReqReadSize : Nat
  dataReqReadWord : Nat
  dataReqReadWay : Bits c.ways
  dataReqWrite : Bool
  dataReqWriteEnable : Bool
  dataReqWriteMerge : Bool
  dataReqWriteSet : Fin c.sets
  dataReqWriteWay : Bits c.ways
  dataReqWriteSize : Nat
  dataReqWriteWord : Nat
  dataReqWriteData : Nat → Byte
  dataReqWriteBe : Nat → Bool
  dataAmoWrite : Bool
  dataAmoWriteEnable : Bool
  dataAmoWriteSet : Fin c.sets
  dataAmoWriteSize : Nat
  dataAmoWriteWord : Nat
  dataAmoWriteWay : Bits c.ways
  dataAmoWriteData : Nat → Byte
  dataAmoWriteBe : Nat → Bool
  dataFlushRead : Bool
  dataFlushReadSet : Fin c.sets
  dataFlushReadWord : Nat
  dataFlushReadWay : Bits c.ways
  dataRefill : Bool
  dataRefillSet : Fin c.sets
  dataRefillWay : Bits c.ways
  dataRefillWord : Nat
  dataRefillData : Nat → Byte
  dataErrSet : Fin c.sets
  dataErrWay : Bits c.ways
  dataErrWord : Nat
  dataErrRead : Bool
  dataErrWrite : Bool
  dataErrWdata : Nat → Byte

/-- The RAMs, what they have read last, and the registers of the controller. -/
structure MemCtrl (c : Cfg) where
  initQ : Bool
  initSetQ : Fin c.sets
  dirRam : Fin c.sets → Fin c.ways → DirEntry
  dirRentry : Fin c.ways → DirEntry
  dirReqSetQ : Fin c.sets
  dirReqWayQ : Bits c.ways
  dirErrWayQ : Bits c.ways
  victim : Victim c
  /-- The data bits, by set, way and byte of the line. -/
  dataBits : Fin c.sets → Fin c.ways → Nat → Byte
  /-- The check bits, by set, way and word of the line. There are none without ECC. -/
  dataCheck : Fin c.sets → Fin c.ways → Nat → Byte
  /-- As decoded, by way and byte of the access. -/
  dataRentry : Fin c.ways → Nat → Byte
  dataReadReqWordIndexQ : Nat
  dataFlushRowIndexQ : Bits (c.ways / c.dataWaysPerRamWord)
  dataFlushReadQ : Bool

namespace MemCtrl

variable {c : Cfg}

/-- The registers with a reset take their reset value, the others and the RAMs keep theirs. -/
def reset (m : MemCtrl c) : MemCtrl c :=
  { m with
    initQ := false
    initSetQ := ⟨0, c.sets_pos⟩
    dirErrWayQ := fun _ => false
    victim := Victim.reset c }

/-! ## Directory port -/

/-- What the directory RAM is asked for in a cycle. -/
structure DirPort (c : Cfg) where
  addr : Fin c.sets
  cs : Bits c.ways
  we : Bits c.ways
  wentry : DirEntry

namespace DirPort

def read (set : Fin c.sets) (way : Bits c.ways) : DirPort c := ⟨set, way, fun _ => false, .zero⟩

def write (set : Fin c.sets) (way : Bits c.ways) (e : DirEntry) : DirPort c := ⟨set, way, way, e⟩

end DirPort

/-- All the ways. -/
def allWays : Bits c.ways := fun _ => true

/-- The ways whose latched entry is valid with the given tag. -/
def hitWay (m : MemCtrl c) (tag : Nat) : Bits c.ways :=
  fun w => (m.dirRentry w).valid && decide ((m.dirRentry w).tag = tag)

/-- Directory RAM request mux. -/
def dirCtrl (m : MemCtrl c) (i : MemIn c) : DirPort c :=
  if !m.initQ then .write m.initSetQ allWays .zero
  else if i.dirMatch then .read i.dirMatchSet allWays
  else if i.dirRefill then .write i.dirRefillSet i.dirRefillWay i.dirRefillEntry
  else if i.dirInvalCheck then .read i.dirInvalNline.set allWays
  else if i.dirInvalWrite then .write i.dirInvalNline.set (m.hitWay i.dirInvalNline.tag) .zero
  else if i.dirCmoCheckNline then .read i.dirCmoCheckNlineSet allWays
  else if i.dirCmoCheckEntry then .read i.dirCmoCheckEntrySet i.dirCmoCheckEntryWay
  else if i.dirCmoUpdt then .write i.dirCmoUpdtSet i.dirCmoUpdtWay i.dirCmoUpdtEntry
  else if i.dirUpdt then .write i.dirUpdtSet i.dirUpdtWay i.dirUpdtEntry
  else if c.eccEn && i.dirErrRead then .read i.dirErrSet i.dirErrWay
  else if i.dirErrWrite then .write i.dirErrSet i.dirErrWay i.dirErrWdata
  else .read m.dirReqSetQ fun _ => false

/-! ## Lookups in the latched entries -/

/-- The OR of a flag over the selected ways. -/
def flag (m : MemCtrl c) (way : Bits c.ways) (f : DirEntry → Bool) : Bool :=
  any fun w => way w && f (m.dirRentry w)

def tagOf (m : MemCtrl c) (way : Bits c.ways) : Nat :=
  mux way (fun w => (m.dirRentry w).tag) 0

/-- The directory state that the victim selection sees. -/
def victimDir (m : MemCtrl c) : Victim.Dir c where
  valid := fun w => (m.dirRentry w).valid
  wback := fun w => (m.dirRentry w).wback
  dirty := fun w => (m.dirRentry w).dirty
  fetch := fun w => (m.dirRentry w).fetch

def victimWay (m : MemCtrl c) (set : Fin c.sets) : Bits c.ways :=
  m.victim.selVictimWay set m.victimDir

/-- The entry for the error handler. -/
def dirErrRdata (m : MemCtrl c) : DirEntry :=
  if c.eccEn then mux m.dirErrWayQ m.dirRentry .zero else .zero

/-! ## Data port -/

/-- The columns of the data RAM that an access of this size selects at this word. -/
def computeDataRamCs (c : Cfg) (size word : Nat) : Nat → Bool :=
  let bytes := if size ≤ 3 then 8 else if size = 4 then 16 else if size = 5 then 32 else 64
  let off := word % c.accessWords
  fun j => decide (off ≤ j ∧ j < off + bytes / c.wordBytes)

/-- The rows of the data RAM that hold a selected way. -/
def wayToDataRamRow (way : Bits c.ways) : Bits (c.ways / c.dataWaysPerRamWord) :=
  fun r => decide (∃ w, way w = true ∧ w.val / c.dataWaysPerRamWord = r.val)

/-- The position of the selected way in a word of the data RAM. -/
def wayToDataRamWord (way : Bits c.ways) : Nat :=
  match first? way with
  | some w => w.val % c.dataWaysPerRamWord
  | none => 0

/-- The write request of the cycle. -/
structure DataWrite (c : Cfg) where
  write : Bool
  enable : Bool
  set : Fin c.sets
  size : Nat
  word : Nat
  data : Nat → Byte
  be : Nat → Bool

/-- The read request of the cycle. -/
structure DataRead (c : Cfg) where
  read : Bool
  set : Fin c.sets
  size : Nat
  word : Nat

/-- A size that covers a whole access, in the 3 bits of a size. -/
def accessSize (c : Cfg) : Nat := Nat.clog 2 c.accessBytes % 8

/-- Data of a request repeated over the access. -/
def upsizeData (c : Cfg) (data : Nat → Byte) : Nat → Byte := fun b => data (b % c.reqBytes)

/-- Byte enable of a request at its place in the access. -/
def upsizeBe (c : Cfg) (word : Nat) (be : Nat → Bool) : Nat → Bool :=
  fun b => decide (b / c.reqBytes = word / c.reqWords % (c.accessWords / c.reqWords)) &&
    be (b % c.reqBytes)

/-- Read data of a request, in the given ways. -/
def readData (m : MemCtrl c) (way : Bits c.ways) : Nat → Byte :=
  fun b => mux way (fun w => m.dataRentry w (m.dataReadReqWordIndexQ * c.reqBytes + b)) 0

/-- Write data of a request. With ECC a partial write is merged with the data read before. -/
def reqWriteData (m : MemCtrl c) (i : MemIn c) : Nat → Byte :=
  fun b =>
    if c.eccEn && !i.dataReqWriteBe b then m.readData i.dataReqReadWay b else i.dataReqWriteData b

def reqWriteBe (i : MemIn c) : Nat → Bool :=
  fun b => i.dataReqWriteBe b || (c.eccEn && i.dataReqWriteMerge)

/-- Data write requests. -/
def dataWrite (m : MemCtrl c) (i : MemIn c) : DataWrite c :=
  if i.dataRefill then
    ⟨true, true, i.dataRefillSet, accessSize c, i.dataRefillWord, i.dataRefillData, fun _ => true⟩
  else if i.dataReqWrite then
    ⟨true, i.dataReqWriteEnable, i.dataReqWriteSet, i.dataReqWriteSize, i.dataReqWriteWord,
      upsizeData c (m.reqWriteData i), upsizeBe c i.dataReqWriteWord (reqWriteBe i)⟩
  else if i.dataAmoWrite then
    ⟨true, i.dataAmoWriteEnable, i.dataAmoWriteSet, i.dataAmoWriteSize, i.dataAmoWriteWord,
      upsizeData c i.dataAmoWriteData, upsizeBe c i.dataAmoWriteWord i.dataAmoWriteBe⟩
  else if i.dataErrWrite then
    ⟨true, true, i.dataErrSet, accessSize c, i.dataErrWord, i.dataErrWdata, fun _ => true⟩
  else ⟨false, false, ⟨0, c.sets_pos⟩, 0, 0, fun _ => 0, fun _ => false⟩

/-- Data read requests. -/
def dataRead (i : MemIn c) : DataRead c :=
  if i.dataReqRead then ⟨true, i.dataReqReadSet, i.dataReqReadSize, i.dataReqReadWord⟩
  else if i.dataFlushRead then ⟨true, i.dataFlushReadSet, accessSize c, i.dataFlushReadWord⟩
  else if i.dataErrRead then ⟨true, i.dataErrSet, accessSize c, i.dataErrWord⟩
  else ⟨false, ⟨0, c.sets_pos⟩, 0, 0⟩

/-- The way of the access. -/
def dataWay (i : MemIn c) : Bits c.ways :=
  if i.dataRefill then i.dataRefillWay
  else if i.dataFlushRead then i.dataFlushReadWay
  else if i.dataAmoWrite then i.dataAmoWriteWay
  else if i.dataReqWrite then i.dataReqWriteWay
  else if i.dataErrRead then i.dataErrWay
  else if i.dataErrWrite then i.dataErrWay
  else fun _ => false

/-- A read and a write of requests that share a column. -/
def rdWrConflict (c : Cfg) (rdSize rdWord wrSize wrWord : Nat) : Bool :=
  decide (∃ j < c.accessWords,
    computeDataRamCs c rdSize rdWord j = true ∧ computeDataRamCs c wrSize wrWord j = true)

/-- What the RAMs of one row are asked for in a column. -/
structure DataPort (c : Cfg) where
  cs : Bool
  we : Bool
  set : Fin c.sets
  chunk : Nat

def dataCtrl (wr : DataWrite c) (rd : DataRead c) (row : Bits (c.ways / c.dataWaysPerRamWord))
    (r : Fin (c.ways / c.dataWaysPerRamWord)) (j : Nat) : DataPort c :=
  let wrCol := wr.write && computeDataRamCs c wr.size wr.word j
  let wordSelRd := rd.read && computeDataRamCs c rd.size rd.word j
  let wordSelWr := row r && wrCol
  { cs := wordSelRd || wordSelWr
    we := wr.enable && wordSelWr
    set := if wrCol then wr.set else rd.set
    chunk := (if wrCol then wr.word else rd.word) / c.accessWords }

/-- The row of a way. -/
def dataRow (w : Fin c.ways) : Fin (c.ways / c.dataWaysPerRamWord) :=
  ⟨w.val / c.dataWaysPerRamWord, by
    obtain ⟨k, hk⟩ := c.dataWaysPerRamWord_dvd
    rw [Nat.div_lt_iff_lt_mul c.dataWaysPerRamWord_pos,
      Nat.div_mul_cancel c.dataWaysPerRamWord_dvd]
    exact w.isLt⟩

/-- A word of the line as the RAM holds it: the bytes of its data, then its check byte. -/
def dataWord (m : MemCtrl c) (set : Fin c.sets) (w : Fin c.ways) (x : Nat) : Nat → Byte :=
  fun l =>
    if l < c.wordBytes then m.dataBits set w (x * c.wordBytes + l) else m.dataCheck set w x

/-- Content of the data RAM as it is read, by set, way and byte of the line. -/
def dataRam (m : MemCtrl c) : Fin c.sets → Fin c.ways → Nat → Byte :=
  fun set w b => c.ramRead (m.dataWord set w (b / c.wordBytes)) (b % c.wordBytes)

/-- A byte of the line is written in the cycle. -/
def dataWe (m : MemCtrl c) (i : MemIn c) (set : Fin c.sets) (w : Fin c.ways) (b : Nat) : Bool :=
  let wr := m.dataWrite i
  let way := dataWay i
  let a := b % c.accessBytes
  let p := dataCtrl wr (dataRead i) (wayToDataRamRow way) (dataRow w) (a / c.wordBytes)
  decide (p.we = true ∧ p.set = set ∧ p.chunk = b / c.accessBytes ∧
    w.val % c.dataWaysPerRamWord = wayToDataRamWord way ∧ wr.be a = true)

/-- Data bits after the cycle. -/
def dataBitsNext (m : MemCtrl c) (i : MemIn c) : Fin c.sets → Fin c.ways → Nat → Byte :=
  fun set w b =>
    if m.dataWe i set w b then (m.dataWrite i).data (b % c.accessBytes) else m.dataBits set w b

/-- Check bits after the cycle: they take the enable of the last byte of their word. -/
def dataCheckNext (m : MemCtrl c) (i : MemIn c) : Fin c.sets → Fin c.ways → Nat → Byte :=
  fun set w x =>
    if c.eccEn && m.dataWe i set w (x * c.wordBytes + (c.wordBytes - 1)) then
      c.eccEncode (fun l => (m.dataWrite i).data ((x * c.wordBytes + l) % c.accessBytes))
        c.wordBytes
    else m.dataCheck set w x

/-- What a RAM of bytes without a code has after the cycle. -/
def dataRamNext (m : MemCtrl c) (i : MemIn c) : Fin c.sets → Fin c.ways → Nat → Byte :=
  fun set w b =>
    if m.dataWe i set w b then (m.dataWrite i).data (b % c.accessBytes) else m.dataRam set w b

/-- Word read by the data RAM after the cycle. -/
def dataRentryNext (m : MemCtrl c) (i : MemIn c) : Fin c.ways → Nat → Byte :=
  let wr := m.dataWrite i
  let rd := dataRead i
  let way := dataWay i
  fun w a =>
    let p := dataCtrl wr rd (wayToDataRamRow way) (dataRow w) (a / c.wordBytes)
    if p.cs && !p.we then m.dataRam p.set w (p.chunk * c.accessBytes + a) else m.dataRentry w a

/-- The data read for the flush controller, or for the error handler. -/
def flushReadData (m : MemCtrl c) (flushWay errWay : Bits c.ways) : Nat → Byte :=
  let way := if !c.eccEn || m.dataFlushReadQ then flushWay else errWay
  fun a => mux m.dataFlushRowIndexQ (fun r => mux
    (fun k : Fin c.dataWaysPerRamWord =>
      any fun w => way w && decide (w.val % c.dataWaysPerRamWord = k.val))
    (fun k => mux
      (fun w : Fin c.ways => decide (w.val = r.val * c.dataWaysPerRamWord + k.val))
      (fun w => m.dataRentry w a) 0) 0) 0

/-! ## One cycle -/

def step (m : MemCtrl c) (i : MemIn c) : MemCtrl c where
  initQ := m.initQ || decide (m.initSetQ.val + 1 = c.sets)
  initSetQ := if m.initQ then m.initSetQ
    else ⟨(m.initSetQ.val + 1) % c.sets, Nat.mod_lt _ c.sets_pos⟩
  dirRam := fun set w =>
    let p := m.dirCtrl i
    if p.addr = set ∧ p.cs w = true ∧ p.we w = true then p.wentry else m.dirRam set w
  dirRentry := fun w =>
    let p := m.dirCtrl i
    if p.cs w = true ∧ p.we w = false then m.dirRam p.addr w else m.dirRentry w
  dirReqSetQ := if i.dirMatch || i.dirCmoCheckNline || i.dirInvalCheck then (m.dirCtrl i).addr
    else m.dirReqSetQ
  dirReqWayQ := if i.dirCmoCheckEntry then i.dirCmoCheckEntryWay else m.dirReqWayQ
  dirErrWayQ := if c.eccEn && i.dirErrRead then i.dirErrWay else m.dirErrWayQ
  victim :=
    m.victim.step i.dirVictimSel m.victimDir (i.dirUpdtSelVictim || i.dirRefillUpdtSelVictim)
      (if i.dirRefillUpdtSelVictim then i.dirRefillSet else m.dirReqSetQ)
      (if i.dirUpdtSelVictim then m.hitWay i.dirMatchTag else i.dirRefillWay)
  dataBits := m.dataBitsNext i
  dataCheck := m.dataCheckNext i
  dataRentry := m.dataRentryNext i
  dataReadReqWordIndexQ := i.dataReqReadWord / c.reqWords % (c.accessWords / c.reqWords)
  dataFlushRowIndexQ := if i.dataFlushRead || (c.eccEn && i.dataErrRead)
    then wayToDataRamRow (dataWay i) else m.dataFlushRowIndexQ
  dataFlushReadQ := if c.eccEn then i.dataFlushRead else m.dataFlushReadQ

end MemCtrl

end Hpdcache
