import Hpdcache.DataRams
import Hpdcache.Lib.Resize
import Hpdcache.Reachable
import Hpdcache.RefillLine

/-!
# The data of a flush

From the allocation of a line in the flush controller to its beats on the memory channel: the chunks
read in the data RAM, the multiplexers behind it, the buffer that converts the width, and the end of
a packet.

**The lines.** Beside the cache run the lines given to the controller, with their content when they
were, and what has been sent: the beats of a line are those of its content, in order.

* `Flushing.step` — one cycle, with what is asked and sent in it.
* `Flushing.Inv` — what the buffer holds is what is left to send.
* `Flushing.correct_run` — what is sent in the runs in which the controller has the data RAM.
-/

namespace Hpdcache

open Hw
open Refilling (chunks chunks_mul chunks_pos)

/-! ## The data RAM -/

namespace MemCtrl

variable {c : Cfg} (m : MemCtrl c) (i : MemIn c)

/-- The line that a way holds. -/
def heldLine (set : Fin c.sets) (way : Bits c.ways) : Nat → Byte :=
  fun b => mux way (fun w => m.dataRam set w b) 0

/-- The controller that flushes has the port of the data RAM. -/
structure FlushPort : Prop where
  not_write : (m.dataWrite i).write = false
  not_read : i.dataReqRead = false
  not_err : i.dataErrRead = false

/-- A way is selected in a word of the data RAM. -/
def lane (way : Bits c.ways) (n : Nat) : Bool :=
  any fun w => way w && decide (w.val % c.dataWaysPerRamWord = n)

variable {m i}

theorem dataRefill_of_not_write (h : (m.dataWrite i).write = false) : i.dataRefill = false := by
  by_contra hr
  rw [Bool.not_eq_false] at hr
  simp [dataWrite, hr] at h

/-- Without a write the RAM keeps its content. -/
theorem FlushPort.dataRam_step (h : m.FlushPort i) : (m.step i).dataRam = m.dataRam := by
  apply dataRam_keep
  apply dataWe_eq_false
  rw [h.not_write, Bool.false_and]

/-- Without a read the last word read stays. -/
theorem FlushPort.dataRentry_keep (h : m.FlushPort i) (hf : i.dataFlushRead = false) :
    (m.step i).dataRentry = m.dataRentry := by
  have hread : (dataRead i).read = false := by
    simp [dataRead, h.not_read, hf, h.not_err]
  funext w a
  show m.dataRentryNext i w a = m.dataRentry w a
  simp [dataRentryNext, dataCtrl, h.not_write, hread]

/-- A read of the flush controller reads the chunk in every way. -/
theorem FlushPort.dataRentry_read (h : m.FlushPort i) (hf : i.dataFlushRead = true)
    (hle : c.accessBytes ≤ 64) {n : Nat} (hw : i.dataFlushReadWord = n * c.accessWords)
    (w : Fin c.ways) {a : Nat} (ha : a < c.accessBytes) :
    (m.step i).dataRentry w a = m.dataRam i.dataFlushReadSet w (n * c.accessBytes + a) := by
  have hread : dataRead i = ⟨true, i.dataFlushReadSet, accessSize c, i.dataFlushReadWord⟩ := by
    simp [dataRead, h.not_read, hf]
  have hcol : a / c.wordBytes < c.accessWords := by
    rw [Nat.div_lt_iff_lt_mul c.wordBytes_pos]
    exact ha
  have hmod : i.dataFlushReadWord % c.accessWords = 0 := by
    rw [hw, Nat.mul_mod_left]
  have hcs := accessSize_cs hle hmod hcol
  have hdiv : i.dataFlushReadWord / c.accessWords = n := by
    rw [hw, Nat.mul_div_cancel _ c.accessWords_pos]
  show m.dataRentryNext i w a = _
  simp [dataRentryNext, dataCtrl, h.not_write, hread, hcs, hdiv]

/-- The row of the last read of the flush controller. -/
theorem FlushPort.rowIndex_step (h : m.FlushPort i) :
    (m.step i).dataFlushRowIndexQ =
      if i.dataFlushRead then wayToDataRamRow i.dataFlushReadWay else m.dataFlushRowIndexQ := by
  have hrefill := dataRefill_of_not_write h.not_write
  show (if i.dataFlushRead || (c.eccEn && i.dataErrRead) then wayToDataRamRow (dataWay i)
    else m.dataFlushRowIndexQ) = _
  rw [h.not_err, Bool.and_false, Bool.or_false]
  cases hf : i.dataFlushRead with
  | false => rfl
  | true => simp [dataWay, hrefill, hf]

/-- Behind the multiplexers is the way that was read, when its lane is selected. With one way in a
RAM word there is nothing to select. -/
theorem flushReadData_eq {flushWay errWay : Bits c.ways} {w : Fin c.ways}
    (hrow : m.dataFlushRowIndexQ = wayToDataRamRow (ofIndex w))
    (hlane : c.dataWaysPerRamWord = 1 ∨
      lane (if !c.eccEn || m.dataFlushReadQ then flushWay else errWay) = lane (ofIndex w)) :
    m.flushReadData flushWay errWay = m.dataRentry w := by
  funext a
  have hw : w.val / c.dataWaysPerRamWord * c.dataWaysPerRamWord + w.val % c.dataWaysPerRamWord =
      w.val := by
    rw [Nat.mul_comm]
    exact Nat.div_add_mod _ _
  have hsel : first? m.dataFlushRowIndexQ = some (dataRow w) := by
    rw [hrow]
    apply first?_of_forall
    intro r
    simp only [wayToDataRamRow, ofIndex_eq_true, exists_eq_left, decide_eq_true_eq, dataRow]
    rw [Fin.ext_iff]
    exact eq_comm
  have hway : first? (fun v : Fin c.ways => decide (v.val =
      (dataRow w).val * c.dataWaysPerRamWord + w.val % c.dataWaysPerRamWord)) = some w := by
    apply first?_of_forall
    intro v
    rw [decide_eq_true_eq, dataRow, hw, Fin.ext_iff]
  have hpos : w.val % c.dataWaysPerRamWord < c.dataWaysPerRamWord :=
    Nat.mod_lt _ c.dataWaysPerRamWord_pos
  -- the multiplexer of the ways of a RAM word
  have hmux : ∀ data : Fin c.dataWaysPerRamWord → Byte,
      mux (fun n => lane (if !c.eccEn || m.dataFlushReadQ then flushWay else errWay) n.val) data 0 =
        data ⟨w.val % c.dataWaysPerRamWord, hpos⟩ := by
    intro data
    rcases hlane with hone | hlane
    · exact mux_of_single hone _ data 0 _
    · apply mux_of_first?
      rw [hlane]
      apply first?_of_forall
      intro n
      simp only [lane, any_eq_true, Bool.and_eq_true, ofIndex_eq_true, exists_eq_left,
        decide_eq_true_eq]
      rw [Fin.ext_iff]
      exact eq_comm
  calc m.flushReadData flushWay errWay a
      = mux (fun n : Fin c.dataWaysPerRamWord =>
          lane (if !c.eccEn || m.dataFlushReadQ then flushWay else errWay) n.val)
          (fun k => mux (fun v : Fin c.ways => decide (v.val =
            (dataRow w).val * c.dataWaysPerRamWord + k.val)) (fun v => m.dataRentry v a) 0) 0 :=
        mux_of_first? hsel _ _
    _ = mux (fun v : Fin c.ways => decide (v.val =
          (dataRow w).val * c.dataWaysPerRamWord + w.val % c.dataWaysPerRamWord))
          (fun v => m.dataRentry v a) 0 := hmux _
    _ = m.dataRentry w a := mux_of_first? hway _ _

end MemCtrl

/-! ## The buffer of the data -/

namespace RefillCfg

variable (k : RefillCfg)

/-- The buffer of the flush controller: it is written by accesses and read by words of the
memory. -/
def flushResize : ResizeCfg where
  depth := k.cache.flushFifoDepth
  wr := k.rd
  rd := k.wr
  wrWidth := k.cache.accessBytes
  rdWidth := k.memBytes
  wr_pos := k.rd_pos
  rd_pos := k.wr_pos
  wrWidth_pos := k.accessBytes_pos
  rdWidth_pos := k.memBytes_pos
  slot_eq := k.slot_eq.symm
  one := k.one_side.symm

/-- The beats of a line but one. -/
def memReqFlits : Nat :=
  if k.cache.memWords < k.cache.clWords then k.cache.clWords / k.cache.memWords - 1 else 0

end RefillCfg

namespace Resizer

/-- The buffer as one of bytes. -/
def toResize (q : Resizer) : Resize Byte := ⟨q.slots.map fun s => ⟨s.chunks, s.left⟩, q.part⟩

variable {k : RefillCfg} {q : Resizer}

theorem toResize_wok : q.toResize.wok k.flushResize = q.wok k.cache := by
  simp [toResize, Resize.wok, wok, RefillCfg.flushResize]

theorem toResize_read (slots : List ResizerSlot) (r : Bool) :
    (read slots r).map (fun s => (⟨s.chunks, s.left⟩ : Slot Byte)) =
      Resize.read (slots.map fun s => ⟨s.chunks, s.left⟩) r := by
  cases slots with
  | nil => rfl
  | cons s rest =>
    cases r with
    | false => rfl
    | true =>
      by_cases h0 : s.left = 0
      · simp [read, Resize.read, h0]
      · simp [read, Resize.read, h0]

theorem toResize_step {w wlast r : Bool} {data : Nat → Byte} :
    (q.step k.cache w wlast data r).toResize =
      q.toResize.step k.flushResize w wlast data r := by
  have hwr : wrWords k.cache = k.flushResize.wr := rfl
  have hrd : rdWords k.cache = k.flushResize.rd := rfl
  have hpart : q.toResize.part = q.part := rfl
  unfold step Resize.step
  rw [toResize_wok, hpart, hwr, hrd]
  by_cases hw : (w && q.wok k.cache) = true
  · rw [if_pos hw, if_pos hw]
    by_cases hl : (decide (q.part.length + 1 = k.flushResize.wr) || wlast) = true
    · rw [if_pos hl, if_pos hl]
      simp [toResize, toResize_read]
    · rw [if_neg hl, if_neg hl]
      simp [toResize, toResize_read]
  · rw [if_neg hw, if_neg hw]
    simp [toResize, toResize_read]

end Resizer

/-! ## What is asked and what is sent -/

/-- A line given to the flush controller, with its content at that time. -/
structure Flushed (c : Cfg) where
  nline : Nline c
  id : Fin c.flushEntries
  line : Nat → Byte

/-- A beat of write data, all its bytes enabled. -/
structure FlushBeat where
  data : List Byte
  last : Bool
  deriving DecidableEq

/-- A write request of the flush controller. -/
structure FlushWrite (c : Cfg) where
  nline : Nline c
  len : Nat
  id : Fin c.flushEntries

/-- The cache with the counter of the beats of a packet, the lines given to the flush controller and
what it has sent. -/
structure Flushing (k : RefillCfg) where
  cache : Cache k.cache
  flitsQ : Nat
  asked : List (Flushed k.cache)
  beats : List FlushBeat
  reqs : List (FlushWrite k.cache)

namespace Flushing

variable {k : RefillCfg}

def start (s : Cache k.cache) : Flushing k := ⟨s.reset, 0, [], [], []⟩

variable (s : Flushing k) (i : CacheIn k.cache)

/-- The buffer of the data. -/
def buf : Resize Byte := s.cache.flush.resizer.toResize

def rlast : Bool := decide (s.flitsQ = k.memReqFlits)

/-- The line that is given to the controller. -/
def gives : Option (Flushed k.cache) :=
  if k.cache.wbEn && s.cache.flush.doAlloc (s.cache.flushIn i) then
    some ⟨(s.cache.flushIn i).allocNline, s.cache.flush.freePtr,
      s.cache.mem.heldLine (s.cache.flushIn i).allocNline.set (s.cache.flushIn i).allocWay⟩
  else none

/-- The beat that the memory takes. -/
def beat : Option FlushBeat :=
  if s.buf.rok && i.flushDataReady then
    some ⟨units k.memBytes (s.buf.rdata k.flushResize), s.rlast⟩
  else none

/-- The length of a request has eight bits. -/
def toWrite (x : FlushMeta k.cache) : FlushWrite k.cache := ⟨x.nline, k.memReqFlits % 256, x.id⟩

/-- The write request that the memory takes. -/
def req : Option (FlushWrite k.cache) :=
  if i.flushReqReady then s.cache.flush.metaFifo.head?.map toWrite else none

def step : Flushing k where
  cache := s.cache.step i
  flitsQ := if (s.beat i).isSome then (if s.rlast then 0 else (s.flitsQ + 1) % 256) else s.flitsQ
  asked := s.asked ++ (s.gives i).toList
  beats := s.beats ++ (s.beat i).toList
  reqs := s.reqs ++ (s.req i).toList

/-- The beats of a line: its words in the order of the addresses, the last one flagged. -/
def lineBeats (a : Flushed k.cache) : List FlushBeat :=
  (List.range k.beats).map fun n =>
    ⟨units k.memBytes fun b => a.line (n * k.memBytes + b), decide (n + 1 = k.beats)⟩

/-- The write request of a line. -/
def lineWrite (a : Flushed k.cache) : FlushWrite k.cache := ⟨a.nline, k.beats - 1, a.id⟩

/-- What is sent is the beats and the requests of the lines given to the controller, and all of them
when nothing is left in it. -/
structure Correct : Prop where
  beats : s.beats <+: s.asked.flatMap lineBeats
  reqs : s.reqs <+: s.asked.map lineWrite
  beats_all : s.cache.flush.fsmQ = .idle → s.cache.flush.resizer.slots = [] →
    s.beats = s.asked.flatMap lineBeats
  reqs_all : s.cache.flush.metaFifo = [] → s.reqs = s.asked.map lineWrite

/-- The controller flushes or is given a line. -/
def Active : Prop := s.cache.flush.fsmQ = .send ∨ (s.gives i).isSome = true

/-- The controller is given one way, it has the port of the data RAM while it flushes, and the lane
of its way is selected when the data is written in the buffer, if a RAM word has several. The
columns of an access are those of 512 bits at most, and the length of a packet is one of 256 beats
at most. -/
structure Steady : Prop where
  narrow : k.cache.accessBytes ≤ 64
  short : k.beats ≤ 256
  way : (s.gives i).isSome = true → ∃ w, (s.cache.flushIn i).allocWay = ofIndex w
  port : s.Active i → s.cache.mem.FlushPort (s.cache.memIn i)
  lane : s.cache.flush.fsmQ = .send → s.cache.flush.resizerWok = true →
    k.cache.eccEn = true → k.cache.dataWaysPerRamWord = 1 ∨ s.cache.mem.dataFlushReadQ = true ∨
      MemCtrl.lane s.cache.err.wayQ = MemCtrl.lane s.cache.flush.wayQ

/-! ## The stream of the buffer -/

def lineBytes (a : Flushed k.cache) : List Byte := units k.cache.clBytes a.line

/-- The bytes that have been sent. -/
def sent : List Byte := s.beats.flatMap FlushBeat.data

/-- The line `a` is being read: its chunk `n` has been read and is to be written in the buffer. -/
structure Reading (s : Flushing k) (old : List (Flushed k.cache)) (a : Flushed k.cache) (n : Nat)
    (w : Fin k.cache.ways) : Prop where
  asked : s.asked = old ++ [a]
  lt : n < chunks k.cache
  word : s.cache.flush.wordQ = (n + 1) % chunks k.cache * k.cache.accessWords
  way : s.cache.flush.wayQ = ofIndex w
  row : s.cache.mem.dataFlushRowIndexQ = MemCtrl.wayToDataRamRow (ofIndex w)
  entry : ∀ b < k.cache.accessBytes,
    s.cache.mem.dataRentry w b = a.line (n * k.cache.accessBytes + b)
  ram : s.cache.mem.dataRam s.cache.flush.setQ w = a.line
  part : s.buf.part.length = n % k.flushResize.wr
  stream : s.sent ++ s.buf.content k.flushResize =
    old.flatMap lineBytes ++ units (n * k.cache.accessBytes) a.line

/-- What the buffer holds is what is left to send. -/
structure Inv (s : Flushing k) : Prop where
  wf : s.buf.Wf k.flushResize
  idle : s.cache.flush.fsmQ = .idle → s.cache.flush.wordQ = 0 ∧ s.buf.part.length = 0 ∧
    s.sent ++ s.buf.content k.flushResize = s.asked.flatMap lineBytes
  send : s.cache.flush.fsmQ = .send → ∃ old a n w, s.Reading old a n w
  width : ∀ x ∈ s.beats, x.data.length = k.memBytes
  flits : s.flitsQ = s.beats.length % k.beats
  last : ∀ n x, s.beats[n]? = some x → (x.last = true ↔ (n + 1) % k.beats = 0)
  reqs : s.reqs ++ s.cache.flush.metaFifo.map toWrite = s.asked.map lineWrite
  flush : k.cache.wbEn = false → s.cache.flush.fsmQ = .idle ∧ s.cache.flush.metaFifo = [] ∧
    s.buf = Resize.empty

section
variable {s : Flushing k} {i : CacheIn k.cache} {old : List (Flushed k.cache)}
  {a : Flushed k.cache} {n : Nat} {w : Fin k.cache.ways}

theorem beats_pos (k : RefillCfg) : 0 < k.beats :=
  Nat.div_pos (Nat.le_of_dvd k.cache.clWords_pos k.cache.memWords_dvd) k.cache.memWords_pos

theorem memReqFlits_eq (k : RefillCfg) : k.memReqFlits = k.beats - 1 := by
  have hle := Nat.le_of_dvd k.cache.clWords_pos k.cache.memWords_dvd
  unfold RefillCfg.memReqFlits RefillCfg.beats
  by_cases h : k.cache.memWords < k.cache.clWords
  · rw [if_pos h]
  · have heq : k.cache.memWords = k.cache.clWords := by omega
    rw [if_neg h, heq, Nat.div_self k.cache.clWords_pos]

/-- A line has a whole number of words of the buffer. -/
theorem wr_dvd_chunks (k : RefillCfg) : k.flushResize.wr ∣ chunks k.cache := by
  have ha := k.cache.accessWords_pos
  have hm := k.cache.memWords_pos
  have hwr : k.flushResize.wr = max 1 (k.cache.memWords / k.cache.accessWords) := rfl
  rw [hwr]
  rcases k.resizable with h | h
  · have hle := Nat.le_of_dvd ha h
    have hone : k.cache.memWords / k.cache.accessWords ≤ 1 := Nat.div_le_of_le_mul (by omega)
    rw [Nat.max_eq_left hone]
    exact Nat.one_dvd _
  · have hle := Nat.le_of_dvd hm h
    rw [Nat.max_eq_right (Nat.div_pos hle ha)]
    exact Nat.div_dvd_div h k.cache.memWords_dvd

theorem start_inv (s : Cache k.cache) : (start s).Inv where
  wf := Resize.wf_empty
  idle := fun _ => ⟨rfl, rfl, rfl⟩
  send := nofun
  width := nofun
  flits := (Nat.zero_mod _).symm
  last := nofun
  reqs := rfl
  flush := fun _ => ⟨rfl, rfl, rfl⟩

theorem buf_step : (s.step i).buf =
    if k.cache.wbEn then s.buf.step k.flushResize (decide (s.cache.flush.fsmQ = .send))
      s.cache.flush.eol (s.cache.flushIn i).readData i.flushDataReady
    else s.buf := by
  have hstep : (s.step i).buf =
      (if k.cache.wbEn then s.cache.flush.step (s.cache.flushIn i)
        else s.cache.flush).resizer.toResize := rfl
  rw [hstep]
  split_ifs
  · exact Resizer.toResize_step
  · rfl

/-- The beat that is taken is the beginning of the buffer. -/
theorem sent_step : (s.step i).sent ++
    (s.buf.content k.flushResize).drop (if i.flushDataReady && s.buf.rok then k.memBytes else 0) =
      s.sent ++ s.buf.content k.flushResize := by
  have hsent : (s.step i).sent = s.sent ++ (s.beat i).toList.flatMap FlushBeat.data := by
    show (s.beats ++ (s.beat i).toList).flatMap FlushBeat.data = _
    rw [List.flatMap_append]
    rfl
  rw [hsent, List.append_assoc]
  congr 1
  unfold beat
  rw [Bool.and_comm]
  by_cases hr : (i.flushDataReady && s.buf.rok) = true
  · rw [if_pos hr, if_pos hr]
    have hrok := (Bool.and_eq_true_iff.1 hr).2
    have htake : (s.buf.content k.flushResize).take k.memBytes =
        units k.memBytes (s.buf.rdata k.flushResize) := by
      have hlen := Resize.rdWidth_le_length (k := k.flushResize) hrok
      apply List.ext_getElem?
      intro b
      by_cases hb : b < k.memBytes
      · rw [List.getElem?_take_of_lt hb, Resize.rdata_eq hrok hb, units_getElem? hb]
      · have hlen' : (units k.memBytes (s.buf.rdata k.flushResize)).length = k.memBytes :=
          length_units _
        rw [List.getElem?_eq_none (by rw [List.length_take]; omega),
          List.getElem?_eq_none (by omega)]
    rw [Option.toList_some, List.flatMap_singleton, ← htake, List.take_append_drop]
  · rw [if_neg hr, if_neg hr]
    rfl

/-- What is sent and what the buffer holds, after a write or none. -/
theorem stream_step (h : s.buf.Wf k.flushResize) (hwb : k.cache.wbEn = true)
    (hlast : s.cache.flush.fsmQ = .send → s.cache.flush.eol = true →
      s.buf.part.length + 1 = k.flushResize.wr) :
    (s.step i).buf.Wf k.flushResize ∧
      (s.step i).sent ++ (s.step i).buf.content k.flushResize =
        s.sent ++ s.buf.content k.flushResize ++
          (if s.cache.flush.fsmQ = .send ∧ s.cache.flush.resizerWok = true
            then units k.cache.accessBytes (s.cache.flushIn i).readData else []) ∧
      (s.step i).buf.part.length =
        if s.cache.flush.fsmQ = .send ∧ s.cache.flush.resizerWok = true
        then (s.buf.part.length + 1) % k.flushResize.wr else s.buf.part.length := by
  have hw : (decide (s.cache.flush.fsmQ = .send) && s.buf.wok k.flushResize) = true ↔
      s.cache.flush.fsmQ = .send ∧ s.cache.flush.resizerWok = true := by
    have hwok : s.buf.wok k.flushResize = s.cache.flush.resizerWok := Resizer.toResize_wok
    rw [hwok, Bool.and_eq_true, decide_eq_true_eq]
  have hlast' : decide (s.cache.flush.fsmQ = .send) = true → s.cache.flush.eol = true →
      s.buf.part.length + 1 = k.flushResize.wr := fun hf => hlast (of_decide_eq_true hf)
  rw [buf_step, if_pos hwb]
  refine ⟨h.step hlast', ?_, ?_⟩
  · rw [Resize.content_step h hlast', ← List.append_assoc]
    have hsent := sent_step (s := s) (i := i)
    have hwidth : k.flushResize.rdWidth = k.memBytes := rfl
    rw [hwidth, hsent]
    by_cases hc : s.cache.flush.fsmQ = .send ∧ s.cache.flush.resizerWok = true
    · rw [if_pos hc, if_pos (hw.2 hc)]
      rfl
    · rw [if_neg hc, if_neg fun hx => hc (hw.1 hx)]
  · rw [Resize.part_step h hlast']
    by_cases hc : s.cache.flush.fsmQ = .send ∧ s.cache.flush.resizerWok = true
    · rw [if_pos hc, if_pos (hw.2 hc)]
    · rw [if_neg hc, if_neg fun hx => hc (hw.1 hx)]

/-! ## A cycle of the FSM -/

theorem flush_step (hwb : k.cache.wbEn = true) :
    (s.step i).cache.flush = s.cache.flush.step (s.cache.flushIn i) := if_pos hwb

theorem mem_step : (s.step i).cache.mem = s.cache.mem.step (s.cache.memIn i) := rfl

theorem gives_eq (hwb : k.cache.wbEn = true) : s.gives i =
    if s.cache.flush.doAlloc (s.cache.flushIn i) then
      some ⟨(s.cache.flushIn i).allocNline, s.cache.flush.freePtr,
        s.cache.mem.heldLine (s.cache.flushIn i).allocNline.set (s.cache.flushIn i).allocWay⟩
    else none := by
  simp [gives, hwb]

theorem not_doAlloc_of_send (hf : s.cache.flush.fsmQ = .send) :
    s.cache.flush.doAlloc (s.cache.flushIn i) = false := by
  simp [Flush.doAlloc, Flush.allocReady, hf]

theorem gives_of_send (hf : s.cache.flush.fsmQ = .send) : s.gives i = none := by
  simp [gives, not_doAlloc_of_send hf]

theorem asked_step : (s.step i).asked = s.asked ++ (s.gives i).toList := rfl

/-- The word after the chunk `n`. -/
theorem nextWord_eq (n : Nat) (hw : s.cache.flush.wordQ = n % chunks k.cache * k.cache.accessWords) :
    s.cache.flush.nextWord = (n + 1) % chunks k.cache * k.cache.accessWords := by
  have hmul := chunks_mul k.cache
  unfold Flush.nextWord
  rw [hw, ← hmul, ← Nat.succ_mul, Nat.mul_mod_mul_right, Nat.succ_eq_add_one, Nat.mod_add_mod]

theorem eol_iff (h : s.Reading old a n w) : s.cache.flush.eol = true ↔ n + 1 = chunks k.cache := by
  have hpos := k.cache.accessWords_pos
  have hlt := h.lt
  rw [Flush.eol, decide_eq_true_eq, h.word, Nat.mul_eq_zero]
  constructor
  · rintro (h0 | h0)
    · have hle := Nat.le_of_dvd (by omega) (Nat.dvd_of_mod_eq_zero h0)
      omega
    · omega
  · intro he
    rw [he, Nat.mod_self]
    exact .inl rfl

/-- A line that is given to the controller. -/
theorem Inv.alloc_step (h : s.Inv) (hs : s.Steady i) (hwb : k.cache.wbEn = true)
    (hd : s.cache.flush.doAlloc (s.cache.flushIn i) = true) :
    (s.step i).cache.flush.fsmQ = .send ∧ ∃ a w, (s.step i).Reading s.asked a 0 w := by
  have hidle : s.cache.flush.fsmQ = .idle := by
    simp only [Flush.doAlloc, Flush.allocReady, Bool.and_eq_true, decide_eq_true_eq] at hd
    exact hd.2.1.1.1
  have hgives := gives_eq (s := s) (i := i) hwb
  rw [if_pos hd] at hgives
  have hsome : (s.gives i).isSome = true := by rw [hgives]; rfl
  obtain ⟨w, hway⟩ := hs.way hsome
  have hport := hs.port (.inr hsome)
  obtain ⟨hword, hpart, hstream⟩ := h.idle hidle
  have hnot : ¬(s.cache.flush.fsmQ = .send ∧ s.cache.flush.resizerWok = true) := by
    rw [hidle]
    exact fun hx => absurd hx.1 (by decide)
  obtain ⟨-, hstream', hpart'⟩ := stream_step (i := i) h.wf hwb fun hx => absurd (hidle.symm.trans hx)
    (by decide)
  rw [if_neg hnot, List.append_nil] at hstream'
  rw [if_neg hnot] at hpart'
  -- the read of the first chunk
  have hread : s.cache.flushRead i =
      ⟨true, (s.cache.flushIn i).allocNline.set, 0, (s.cache.flushIn i).allocWay⟩ := by
    simp [Cache.flushRead, Flush.dataRead, hidle, hd]
  have hfr : (s.cache.memIn i).dataFlushRead = true := by
    simp [Cache.memIn, hwb, hread]
  have hset : (s.cache.memIn i).dataFlushReadSet = (s.cache.flushIn i).allocNline.set := by
    simp [Cache.memIn, hread]
  have hfway : (s.cache.memIn i).dataFlushReadWay = ofIndex w := by
    simp [Cache.memIn, hread, hway]
  have hfword : (s.cache.memIn i).dataFlushReadWord = 0 * k.cache.accessWords := by
    simp [Cache.memIn, hread]
  have hline : s.cache.mem.heldLine (s.cache.flushIn i).allocNline.set
      (s.cache.flushIn i).allocWay = s.cache.mem.dataRam (s.cache.flushIn i).allocNline.set w := by
    funext b
    rw [MemCtrl.heldLine, hway]
    have hone : OneHot (ofIndex w) := by
      intro x y hx hy
      rw [ofIndex_eq_true] at hx hy
      rw [hx, hy]
    exact hone.mux (ofIndex_self w) _ _
  refine ⟨?_, ⟨(s.cache.flushIn i).allocNline, s.cache.flush.freePtr,
    s.cache.mem.heldLine (s.cache.flushIn i).allocNline.set (s.cache.flushIn i).allocWay⟩, w,
    ?_, chunks_pos _, ?_, ?_, ?_, ?_, ?_, ?_, ?_⟩
  · rw [flush_step hwb]
    simp [Flush.step, hidle, hd]
  · rw [asked_step, hgives]
    rfl
  · have hnext := nextWord_eq (s := s) 0 (by rw [hword, Nat.zero_mod, Nat.zero_mul])
    rw [flush_step hwb, ← hnext]
    simp [Flush.step, hidle, hd]
  · rw [flush_step hwb, ← hway]
    simp [Flush.step, hd]
  · rw [mem_step, hport.rowIndex_step, if_pos hfr, hfway]
  · intro b hb
    rw [mem_step, hport.dataRentry_read hfr hs.narrow hfword w hb, hset, hline]
  · rw [mem_step, hport.dataRam_step, hline, flush_step hwb]
    simp [Flush.step, hd]
  · rw [hpart', hpart, Nat.zero_mod]
  · rw [hstream', hstream, Nat.zero_mul]
    exact (List.append_nil _).symm

/-- What is written in the buffer is the chunk that was read. -/
theorem Reading.readData (h : s.Reading old a n w) (hs : s.Steady i)
    (hf : s.cache.flush.fsmQ = .send) (hok : s.cache.flush.resizerWok = true) :
    units k.cache.accessBytes (s.cache.flushIn i).readData =
      units k.cache.accessBytes fun b => a.line (n * k.cache.accessBytes + b) := by
  have hdata : (s.cache.flushIn i).readData = s.cache.mem.dataRentry w := by
    apply MemCtrl.flushReadData_eq h.row
    by_cases hsel : (!k.cache.eccEn || s.cache.mem.dataFlushReadQ) = true
    · rw [if_pos hsel, h.way]
      exact .inr rfl
    · rw [if_neg hsel]
      simp only [Bool.not_eq_true, Bool.or_eq_false_iff, Bool.not_eq_false'] at hsel
      rcases hs.lane hf hok hsel.1 with hone | hq | hq
      · exact .inl hone
      · rw [hsel.2] at hq
        contradiction
      · rw [hq, h.way]
        exact .inr rfl
  rw [hdata]
  apply units_congr
  intro b hb
  exact h.entry b hb

/-- The last chunk fills its word of the buffer. -/
theorem Reading.part_last (h : s.Reading old a n w) (he : s.cache.flush.eol = true) :
    s.buf.part.length + 1 = k.flushResize.wr := by
  have hpos := k.flushResize.wr_pos
  have hlt := Nat.mod_lt n hpos
  have hdvd := wr_dvd_chunks k
  rw [← (eol_iff h).1 he, Nat.dvd_iff_mod_eq_zero, Nat.add_mod] at hdvd
  rw [h.part]
  by_contra hne
  have hone : 1 % k.flushResize.wr = 1 := Nat.mod_eq_of_lt (by omega)
  rw [hone, Nat.mod_eq_of_lt (by omega)] at hdvd
  omega

/-- A cycle in which the buffer does not take the chunk. -/
theorem Reading.stall (h : s.Reading old a n w) (hi : s.Inv) (hs : s.Steady i)
    (hwb : k.cache.wbEn = true) (hf : s.cache.flush.fsmQ = .send)
    (hok : s.cache.flush.resizerWok = false) :
    (s.step i).cache.flush.fsmQ = .send ∧ (s.step i).Reading old a n w := by
  have hport := hs.port (.inl hf)
  have hno := not_doAlloc_of_send (i := i) hf
  have hnot : ¬(s.cache.flush.fsmQ = .send ∧ s.cache.flush.resizerWok = true) := by
    rw [hok]
    exact fun hx => Bool.noConfusion hx.2
  obtain ⟨-, hstream, hpart⟩ := stream_step (i := i) hi.wf hwb fun _ => h.part_last
  rw [if_neg hnot, List.append_nil] at hstream
  rw [if_neg hnot] at hpart
  have hfr : (s.cache.memIn i).dataFlushRead = false := by
    simp [Cache.memIn, Cache.flushRead, Flush.dataRead, hf, hok]
  have hkeep : (s.step i).cache.flush.wordQ = s.cache.flush.wordQ ∧
      (s.step i).cache.flush.wayQ = s.cache.flush.wayQ ∧
      (s.step i).cache.flush.setQ = s.cache.flush.setQ := by
    rw [flush_step hwb]
    simp [Flush.step, hf, hok, hno]
  refine ⟨?_, ?_, h.lt, ?_, ?_, ?_, ?_, ?_, ?_, ?_⟩
  · rw [flush_step hwb]
    simp [Flush.step, hf, hok]
  · rw [asked_step, gives_of_send hf, h.asked]
    exact List.append_nil _
  · rw [hkeep.1, h.word]
  · rw [hkeep.2.1, h.way]
  · rw [mem_step, hport.rowIndex_step, hfr]
    exact h.row
  · rw [mem_step, hport.dataRentry_keep hfr]
    exact h.entry
  · rw [mem_step, hport.dataRam_step, hkeep.2.2]
    exact h.ram
  · rw [hpart, h.part]
  · rw [hstream, h.stream]

/-- The bytes of a line up to the end of a chunk. -/
theorem units_chunk (a : Flushed k.cache) (n : Nat) :
    units (n * k.cache.accessBytes) a.line ++
        units k.cache.accessBytes (fun b => a.line (n * k.cache.accessBytes + b)) =
      units ((n + 1) * k.cache.accessBytes) a.line := by
  rw [Nat.add_mul, Nat.one_mul, units_add]

/-- A cycle in which the buffer takes a chunk that is not the last one. -/
theorem Reading.next (h : s.Reading old a n w) (hi : s.Inv) (hs : s.Steady i)
    (hwb : k.cache.wbEn = true) (hf : s.cache.flush.fsmQ = .send)
    (hok : s.cache.flush.resizerWok = true) (he : s.cache.flush.eol = false) :
    (s.step i).cache.flush.fsmQ = .send ∧ (s.step i).Reading old a (n + 1) w := by
  have hport := hs.port (.inl hf)
  have hno := not_doAlloc_of_send (i := i) hf
  have hyes : s.cache.flush.fsmQ = .send ∧ s.cache.flush.resizerWok = true := ⟨hf, hok⟩
  have hlt : n + 1 < chunks k.cache := by
    have hne : ¬ n + 1 = chunks k.cache := fun hx => by
      rw [(eol_iff h).2 hx] at he
      contradiction
    have := h.lt
    omega
  obtain ⟨-, hstream, hpart⟩ := stream_step (i := i) hi.wf hwb fun _ => h.part_last
  rw [if_pos hyes, h.readData hs hf hok] at hstream
  rw [if_pos hyes] at hpart
  have hread : s.cache.flushRead i =
      ⟨true, s.cache.flush.setQ, s.cache.flush.wordQ, s.cache.flush.wayQ⟩ := by
    simp [Cache.flushRead, Flush.dataRead, hf, hok, he]
  have hfr : (s.cache.memIn i).dataFlushRead = true := by
    simp [Cache.memIn, hwb, hread]
  have hset : (s.cache.memIn i).dataFlushReadSet = s.cache.flush.setQ := by
    simp [Cache.memIn, hread]
  have hfway : (s.cache.memIn i).dataFlushReadWay = ofIndex w := by
    simp [Cache.memIn, hread, h.way]
  have hfword : (s.cache.memIn i).dataFlushReadWord = (n + 1) * k.cache.accessWords := by
    simp [Cache.memIn, hread, h.word, Nat.mod_eq_of_lt hlt]
  have hkeep : (s.step i).cache.flush.wordQ = s.cache.flush.nextWord ∧
      (s.step i).cache.flush.wayQ = s.cache.flush.wayQ ∧
      (s.step i).cache.flush.setQ = s.cache.flush.setQ := by
    rw [flush_step hwb]
    simp [Flush.step, hf, hok, he, hno]
  refine ⟨?_, ?_, hlt, ?_, ?_, ?_, ?_, ?_, ?_, ?_⟩
  · rw [flush_step hwb]
    simp [Flush.step, hf, he]
  · rw [asked_step, gives_of_send hf, h.asked]
    exact List.append_nil _
  · rw [hkeep.1, nextWord_eq (n + 1) h.word]
  · rw [hkeep.2.1, h.way]
  · rw [mem_step, hport.rowIndex_step, if_pos hfr, hfway]
  · intro b hb
    rw [mem_step, hport.dataRentry_read hfr hs.narrow hfword w hb, hset, h.ram]
  · rw [mem_step, hport.dataRam_step, hkeep.2.2]
    exact h.ram
  · rw [hpart, h.part, Nat.mod_add_mod]
  · rw [hstream, h.stream, List.append_assoc, units_chunk]

/-- The cycle in which the buffer takes the last chunk. -/
theorem Reading.done (h : s.Reading old a n w) (hi : s.Inv) (hs : s.Steady i)
    (hwb : k.cache.wbEn = true) (hf : s.cache.flush.fsmQ = .send)
    (hok : s.cache.flush.resizerWok = true) (he : s.cache.flush.eol = true) :
    (s.step i).cache.flush.fsmQ = .idle ∧ (s.step i).cache.flush.wordQ = 0 ∧
      (s.step i).buf.part.length = 0 ∧
      (s.step i).sent ++ (s.step i).buf.content k.flushResize =
        (s.step i).asked.flatMap lineBytes := by
  have hyes : s.cache.flush.fsmQ = .send ∧ s.cache.flush.resizerWok = true := ⟨hf, hok⟩
  have hlast := h.part_last he
  obtain ⟨-, hstream, hpart⟩ := stream_step (i := i) hi.wf hwb fun _ => h.part_last
  rw [if_pos hyes, h.readData hs hf hok] at hstream
  rw [if_pos hyes] at hpart
  refine ⟨?_, ?_, ?_, ?_⟩
  · rw [flush_step hwb]
    simp [Flush.step, hf, hok, he]
  · have hw : s.cache.flush.wordQ = 0 := of_decide_eq_true he
    rw [flush_step hwb]
    simp [Flush.step, hf, he, hw]
  · rw [hpart, hlast, Nat.mod_self]
  · have hbytes : chunks k.cache * k.cache.accessBytes = k.cache.clBytes := by
      rw [Cfg.accessBytes, ← Nat.mul_assoc, chunks_mul, Cfg.clBytes]
    have hasked : (s.step i).asked = old ++ [a] := by
      rw [asked_step, gives_of_send hf, h.asked]
      exact List.append_nil _
    rw [hstream, h.stream, List.append_assoc, units_chunk, (eol_iff h).1 he, hbytes, hasked,
      List.flatMap_append, List.flatMap_singleton]
    rfl

/-! ## Beats and requests -/

theorem beats_step : (s.step i).beats = s.beats ++ (s.beat i).toList := rfl

theorem beat_cases : s.beat i = none ∨
    ∃ x, s.beat i = some x ∧ x.data.length = k.memBytes ∧ x.last = s.rlast := by
  unfold beat
  split_ifs
  · exact .inr ⟨_, rfl, length_units _, rfl⟩
  · exact .inl rfl

/-- The counter is that of the beats of the packet. -/
theorem Inv.rlast_eq (h : s.Inv) :
    s.rlast = true ↔ (s.beats.length + 1) % k.beats = 0 := by
  have hpos := beats_pos k
  have hlt := Nat.mod_lt s.beats.length hpos
  rw [rlast, decide_eq_true_eq, memReqFlits_eq, h.flits]
  constructor
  · intro he
    rw [Nat.add_mod, he]
    by_cases h1 : k.beats = 1
    · rw [h1]
    · rw [Nat.mod_eq_of_lt (show 1 < k.beats by omega), Nat.sub_add_cancel hpos, Nat.mod_self]
  · intro h0
    by_contra hne
    have h1 : 1 % k.beats = 1 := Nat.mod_eq_of_lt (by omega)
    rw [Nat.add_mod, h1, Nat.mod_eq_of_lt (by omega)] at h0
    omega

theorem Inv.beats_step (h : s.Inv) (hs : s.Steady i) :
    (∀ x ∈ (s.step i).beats, x.data.length = k.memBytes) ∧
      (s.step i).flitsQ = (s.step i).beats.length % k.beats ∧
      ∀ n x, (s.step i).beats[n]? = some x → (x.last = true ↔ (n + 1) % k.beats = 0) := by
  have hflits : (s.step i).flitsQ = if (s.beat i).isSome then
      (if s.rlast then 0 else (s.flitsQ + 1) % 256) else s.flitsQ := rfl
  rw [hflits, Flushing.beats_step]
  rcases beat_cases (s := s) (i := i) with hb | ⟨x, hb, hlen, hl⟩
  · rw [hb, Option.toList_none, List.append_nil]
    exact ⟨h.width, h.flits, h.last⟩
  · rw [hb, Option.toList_some, Option.isSome_some, if_pos rfl]
    refine ⟨?_, ?_, ?_⟩
    · intro y hy
      rcases List.mem_append.1 hy with hy | hy
      · exact h.width y hy
      · rw [List.mem_singleton.1 hy]
        exact hlen
    · rw [List.length_append, List.length_singleton]
      by_cases hr : s.rlast = true
      · rw [if_pos hr, h.rlast_eq.1 hr]
      · have hpos := beats_pos k
        have hlt := Nat.mod_lt s.beats.length hpos
        have hne : s.beats.length % k.beats ≠ k.beats - 1 := by
          rwa [rlast, decide_eq_true_eq, memReqFlits_eq, h.flits] at hr
        have hshort := hs.short
        have h1 : 1 % k.beats = 1 := Nat.mod_eq_of_lt (by omega)
        have hleft : (s.beats.length % k.beats + 1) % 256 = s.beats.length % k.beats + 1 :=
          Nat.mod_eq_of_lt (by omega)
        have hright : (s.beats.length % k.beats + 1) % k.beats = s.beats.length % k.beats + 1 :=
          Nat.mod_eq_of_lt (by omega)
        rw [if_neg hr, h.flits, hleft, Nat.add_mod, h1, hright]
    · intro n y hy
      by_cases hn : n < s.beats.length
      · rw [List.getElem?_append_left hn] at hy
        exact h.last n y hy
      · rw [List.getElem?_append_right (Nat.le_of_not_lt hn)] at hy
        have hidx : n - s.beats.length = 0 := by
          by_contra hne
          obtain ⟨d, hd⟩ := Nat.exists_eq_succ_of_ne_zero hne
          rw [hd] at hy
          simp at hy
        rw [hidx] at hy
        have hxy : x = y := by simpa using hy
        have hlen : n = s.beats.length := by omega
        rw [← hxy, hl, hlen]
        exact h.rlast_eq

/-- A request is pushed when its line is given to the controller. -/
theorem Inv.reqs_step (h : s.Inv) (hs : s.Steady i) (hwb : k.cache.wbEn = true) :
    (s.step i).reqs ++ (s.step i).cache.flush.metaFifo.map toWrite =
      (s.step i).asked.map lineWrite := by
  have hstep : (s.step i).cache.flush.metaFifo =
      Fifo.step 2 false s.cache.flush.metaFifo
        (if decide (s.cache.flush.fsmQ = .idle) && s.cache.flush.resizerWok &&
            !s.cache.flush.full && (s.cache.flushIn i).alloc
          then some ⟨(s.cache.flushIn i).allocNline, s.cache.flush.freePtr⟩ else none)
        i.flushReqReady := by
    rw [flush_step hwb]
    rfl
  have hpush : (Fifo.accepted 2 false s.cache.flush.metaFifo
      (if decide (s.cache.flush.fsmQ = .idle) && s.cache.flush.resizerWok &&
          !s.cache.flush.full && (s.cache.flushIn i).alloc
        then some (⟨(s.cache.flushIn i).allocNline, s.cache.flush.freePtr⟩ : FlushMeta k.cache)
        else none) i.flushReqReady).toList.map toWrite = (s.gives i).toList.map lineWrite := by
    have hlen : (⟨(s.cache.flushIn i).allocNline, k.memReqFlits % 256, s.cache.flush.freePtr⟩ :
        FlushWrite k.cache) =
          ⟨(s.cache.flushIn i).allocNline, k.beats - 1, s.cache.flush.freePtr⟩ := by
      have hshort := hs.short
      have hpos := beats_pos k
      rw [memReqFlits_eq, Nat.mod_eq_of_lt (by omega)]
    have hwok : Fifo.wok 2 false s.cache.flush.metaFifo i.flushReqReady =
        s.cache.flush.metaWok := by
      simp [Fifo.wok, Flush.metaWok]
    have hdo : s.cache.flush.doAlloc (s.cache.flushIn i) = true ↔ s.cache.flush.metaWok = true ∧
        (decide (s.cache.flush.fsmQ = .idle) && s.cache.flush.resizerWok &&
          !s.cache.flush.full && (s.cache.flushIn i).alloc) = true := by
      simp only [Flush.doAlloc, Flush.allocReady, Bool.and_eq_true]
      tauto
    rw [gives_eq hwb, Fifo.accepted, hwok]
    by_cases hm : s.cache.flush.metaWok = true
    · rw [if_pos hm]
      by_cases hp : (decide (s.cache.flush.fsmQ = .idle) && s.cache.flush.resizerWok &&
          !s.cache.flush.full && (s.cache.flushIn i).alloc) = true
      · rw [if_pos hp, if_pos (hdo.2 ⟨hm, hp⟩)]
        simp [toWrite, lineWrite, hlen]
      · rw [if_neg hp, if_neg fun hx => hp (hdo.1 hx).2]
        rfl
    · rw [if_neg hm, if_neg fun hx => hm (hdo.1 hx).1]
      rfl
  have hpop : (Fifo.popped false s.cache.flush.metaFifo
      (if decide (s.cache.flush.fsmQ = .idle) && s.cache.flush.resizerWok &&
          !s.cache.flush.full && (s.cache.flushIn i).alloc
        then some (⟨(s.cache.flushIn i).allocNline, s.cache.flush.freePtr⟩ : FlushMeta k.cache)
        else none) i.flushReqReady).toList.map toWrite = (s.req i).toList := by
    unfold Fifo.popped req
    rw [Fifo.rdata_eq]
    split_ifs
    · cases s.cache.flush.metaFifo.head? <;> rfl
    · rfl
  have hreqs : (s.step i).reqs = s.reqs ++ (s.req i).toList := rfl
  rw [hreqs, hstep, asked_step, List.map_append, ← h.reqs, ← hpush, ← hpop, List.append_assoc,
    ← List.map_append, Fifo.step_conserve, List.map_append, List.append_assoc]

/-- Without write-back there is no flush controller. -/
theorem Inv.step_of_not_wbEn (h : s.Inv) (hwb : k.cache.wbEn = false) : (s.step i).Inv := by
  obtain ⟨hidle, hmeta, hbuf⟩ := h.flush hwb
  have hno : ¬ k.cache.wbEn = true := by
    rw [hwb]
    exact Bool.false_ne_true
  have hflush : (s.step i).cache.flush = s.cache.flush := if_neg hno
  have hbuf' : (s.step i).buf = s.buf := by rw [buf_step, if_neg hno]
  have hbeat : s.beat i = none := by simp [beat, hbuf, Resize.rok, Resize.empty]
  have hreq : s.req i = none := by simp [req, hmeta]
  have hgives : s.gives i = none := by simp [gives, hwb]
  have hasked : (s.step i).asked = s.asked := by
    rw [asked_step, hgives]
    exact List.append_nil _
  have hbeats : (s.step i).beats = s.beats := by
    rw [Flushing.beats_step, hbeat]
    exact List.append_nil _
  have hreqs : (s.step i).reqs = s.reqs := by
    show s.reqs ++ (s.req i).toList = s.reqs
    rw [hreq]
    exact List.append_nil _
  have hflits : (s.step i).flitsQ = s.flitsQ := by
    show (if (s.beat i).isSome then _ else s.flitsQ) = s.flitsQ
    rw [hbeat]
    rfl
  have hsent : (s.step i).sent = s.sent := by rw [sent, hbeats, sent]
  refine ⟨?_, ?_, ?_, ?_, ?_, ?_, ?_, ?_⟩
  · rw [hbuf']
    exact h.wf
  · intro _
    rw [hflush, hbuf', hsent, hasked]
    exact h.idle hidle
  · intro hf
    rw [hflush, hidle] at hf
    contradiction
  · rw [hbeats]
    exact h.width
  · rw [hflits, hbeats]
    exact h.flits
  · rw [hbeats]
    exact h.last
  · rw [hreqs, hflush, hasked]
    exact h.reqs
  · intro _
    rw [hflush, hbuf']
    exact ⟨hidle, hmeta, hbuf⟩

/-- **What the buffer holds is what is left to send.** -/
theorem Inv.step (h : s.Inv) (hs : s.Steady i) : (s.step i).Inv := by
  by_cases hwb : k.cache.wbEn = true
  · obtain ⟨hwidth, hflits, hlast⟩ := h.beats_step hs
    have hreqs := h.reqs_step hs hwb
    have hflush : k.cache.wbEn = false → (s.step i).cache.flush.fsmQ = .idle ∧
        (s.step i).cache.flush.metaFifo = [] ∧ (s.step i).buf = Resize.empty := by
      intro hno
      rw [hwb] at hno
      contradiction
    have heol : s.cache.flush.fsmQ = .send → s.cache.flush.eol = true →
        s.buf.part.length + 1 = k.flushResize.wr := by
      intro hf he
      obtain ⟨old, a, n, w, hr⟩ := h.send hf
      exact hr.part_last he
    obtain ⟨hwf, hstream, hpart⟩ := stream_step (i := i) h.wf hwb heol
    -- the FSM reads a line, or waits for one
    have hnext : ((s.step i).cache.flush.fsmQ = .send ∧
          ∃ old a n w, (s.step i).Reading old a n w) ∨
        ((s.step i).cache.flush.fsmQ = .idle ∧ (s.step i).cache.flush.wordQ = 0 ∧
          (s.step i).buf.part.length = 0 ∧
          (s.step i).sent ++ (s.step i).buf.content k.flushResize =
            (s.step i).asked.flatMap lineBytes) := by
      cases hf : s.cache.flush.fsmQ with
      | send =>
        obtain ⟨old, a, n, w, hr⟩ := h.send hf
        cases hok : s.cache.flush.resizerWok with
        | false =>
          obtain ⟨h1, h2⟩ := hr.stall h hs hwb hf hok
          exact .inl ⟨h1, old, a, n, w, h2⟩
        | true =>
          cases he : s.cache.flush.eol with
          | false =>
            obtain ⟨h1, h2⟩ := hr.next h hs hwb hf hok he
            exact .inl ⟨h1, old, a, n + 1, w, h2⟩
          | true => exact .inr (hr.done h hs hwb hf hok he)
      | idle =>
        cases hd : s.cache.flush.doAlloc (s.cache.flushIn i) with
        | true =>
          obtain ⟨h1, a, w, h2⟩ := h.alloc_step hs hwb hd
          exact .inl ⟨h1, s.asked, a, 0, w, h2⟩
        | false =>
          obtain ⟨hw, hp, hst⟩ := h.idle hf
          have hnot : ¬(s.cache.flush.fsmQ = .send ∧ s.cache.flush.resizerWok = true) := by
            rw [hf]
            exact fun hx => absurd hx.1 (by decide)
          have hgives : s.gives i = none := by simp [gives, hd]
          rw [if_neg hnot] at hpart
          rw [if_neg hnot, List.append_nil] at hstream
          refine .inr ⟨?_, ?_, hpart.trans hp, ?_⟩
          · rw [flush_step hwb]
            simp [Flush.step, hf, hd]
          · rw [flush_step hwb]
            simp [Flush.step, hf, hd, hw]
          · rw [hstream, hst, asked_step, hgives]
            exact congrArg (List.flatMap lineBytes) (List.append_nil _).symm
    rcases hnext with ⟨hf, hr⟩ | ⟨hf, hr⟩
    · refine ⟨hwf, fun hx => ?_, fun _ => hr, hwidth, hflits, hlast, hreqs, hflush⟩
      rw [hf] at hx
      contradiction
    · refine ⟨hwf, fun _ => hr, fun hx => ?_, hwidth, hflits, hlast, hreqs, hflush⟩
      rw [hf] at hx
      contradiction
  · exact h.step_of_not_wbEn (Bool.not_eq_true _ ▸ hwb)

/-! ## What is sent -/

theorem length_lineBeats (a : Flushed k.cache) : (lineBeats a).length = k.beats := by
  simp [lineBeats]

/-- The bytes of the beats of a line are those of the line. -/
theorem lineBeats_bytes (a : Flushed k.cache) :
    (lineBeats a).flatMap FlushBeat.data = lineBytes a := by
  have hbytes : k.beats * k.memBytes = k.cache.clBytes := Resp.beats_mul k
  rw [lineBeats, List.flatMap_map, lineBytes, ← hbytes, units_mul]

theorem lines_bytes (as : List (Flushed k.cache)) :
    (as.flatMap lineBeats).flatMap FlushBeat.data = as.flatMap lineBytes := by
  rw [List.flatMap_assoc]
  apply List.flatMap_congr
  intro a _
  exact lineBeats_bytes a

theorem lineBeats_width {a : Flushed k.cache} {x : FlushBeat} (hx : x ∈ lineBeats a) :
    x.data.length = k.memBytes := by
  obtain ⟨n, -, rfl⟩ := List.mem_map.1 hx
  exact length_units _

/-- The last beat of each line is flagged. -/
theorem lineBeats_last (as : List (Flushed k.cache)) {n : Nat} {x : FlushBeat}
    (hx : (as.flatMap lineBeats)[n]? = some x) : x.last = true ↔ (n + 1) % k.beats = 0 := by
  induction as generalizing n with
  | nil => simp at hx
  | cons a as ih =>
    rw [List.flatMap_cons] at hx
    by_cases hn : n < k.beats
    · rw [List.getElem?_append_left (by rwa [length_lineBeats]), lineBeats, List.getElem?_map,
        List.getElem?_range hn] at hx
      rw [← Option.some.inj hx, decide_eq_true_eq]
      constructor
      · intro he
        rw [he, Nat.mod_self]
      · intro h0
        by_contra hne
        rw [Nat.mod_eq_of_lt (by omega)] at h0
        omega
    · rw [List.getElem?_append_right (by rw [length_lineBeats]; omega), length_lineBeats] at hx
      have hmod : (n + 1) % k.beats = (n - k.beats + 1) % k.beats := by
        have hsum : n + 1 = n - k.beats + 1 + k.beats := by omega
        rw [hsum, Nat.add_mod_right]
      rw [hmod]
      exact ih hx

/-- The bytes sent begin those of the lines. -/
theorem Inv.sent_prefix (h : s.Inv) : s.sent <+: s.asked.flatMap lineBytes := by
  cases hf : s.cache.flush.fsmQ with
  | idle => exact ⟨_, (h.idle hf).2.2⟩
  | send =>
    obtain ⟨old, a, n, w, hr⟩ := h.send hf
    have hsplit : lineBytes a = units (n * k.cache.accessBytes) a.line ++
        units (k.cache.clBytes - n * k.cache.accessBytes)
          (fun b => a.line (n * k.cache.accessBytes + b)) := by
      have hle : n * k.cache.accessBytes ≤ k.cache.clBytes := by
        have hbytes : chunks k.cache * k.cache.accessBytes = k.cache.clBytes := by
          rw [Cfg.accessBytes, ← Nat.mul_assoc, chunks_mul, Cfg.clBytes]
        rw [← hbytes]
        exact Nat.mul_le_mul_right _ hr.lt.le
      rw [lineBytes, ← units_add, Nat.add_sub_cancel' hle]
    refine ⟨s.buf.content k.flushResize ++ units (k.cache.clBytes - n * k.cache.accessBytes)
      (fun b => a.line (n * k.cache.accessBytes + b)), ?_⟩
    rw [← List.append_assoc, hr.stream, List.append_assoc, ← hsplit, hr.asked, List.flatMap_append,
      List.flatMap_singleton]

theorem Inv.beats_prefix (h : s.Inv) : s.beats <+: s.asked.flatMap lineBeats := by
  -- the data are the words of the stream
  have hdata : s.beats.map FlushBeat.data <+: (s.asked.flatMap lineBeats).map FlushBeat.data := by
    apply prefix_of_flatten k.memBytes_pos
    · intro x hx
      obtain ⟨y, hy, rfl⟩ := List.mem_map.1 hx
      exact h.width y hy
    · intro x hx
      obtain ⟨y, hy, rfl⟩ := List.mem_map.1 hx
      obtain ⟨a, -, hy⟩ := List.mem_flatMap.1 hy
      exact lineBeats_width hy
    · rw [← List.flatMap_def, ← List.flatMap_def, lines_bytes]
      exact h.sent_prefix
  rw [List.prefix_iff_getElem?]
  intro n hn
  have hlen := hdata.length_le
  rw [List.length_map, List.length_map] at hlen
  have hget := (List.prefix_iff_getElem?.1 hdata) n (by rwa [List.length_map])
  rw [List.getElem?_map, List.getElem_map] at hget
  obtain ⟨y, hy, hyd⟩ := Option.map_eq_some_iff.1 hget
  have hl := lineBeats_last _ hy
  have hl' := h.last n s.beats[n] (List.getElem?_eq_getElem hn)
  rw [hy]
  congr 1
  have hlast : y.last = s.beats[n].last := by
    rw [Bool.eq_iff_iff, hl, hl']
  cases y
  cases hb : s.beats[n]
  rw [hb] at hyd hlast
  simp only at hyd hlast
  rw [hyd, hlast]

/-- **What is sent is what was given.** -/
theorem Inv.correct (h : s.Inv) : s.Correct where
  beats := h.beats_prefix
  reqs := ⟨_, h.reqs⟩
  beats_all := by
    intro hf hslots
    obtain ⟨-, hpart, hstream⟩ := h.idle hf
    have hnil : s.buf.content k.flushResize = [] := by
      have hs : s.buf.slots = [] := by
        show s.cache.flush.resizer.slots.map _ = []
        rw [hslots, List.map_nil]
      simp [Resize.content, hs, List.length_eq_zero_iff.1 hpart]
    rw [hnil, List.append_nil] at hstream
    apply h.beats_prefix.eq_of_length_le
    have hpos := k.memBytes_pos
    have hcount : ∀ l : List FlushBeat, (∀ x ∈ l, x.data.length = k.memBytes) →
        (l.flatMap FlushBeat.data).length = l.length * k.memBytes := by
      intro l hl
      induction l with
      | nil => simp
      | cons x l ih =>
        rw [List.flatMap_cons, List.length_append, hl x List.mem_cons_self,
          ih fun y hy => hl y (List.mem_cons_of_mem x hy), List.length_cons, Nat.add_mul, Nat.one_mul,
          Nat.add_comm]
    have hleft := hcount s.beats h.width
    have hright := hcount (s.asked.flatMap lineBeats) fun x hx => by
      obtain ⟨a, -, hx⟩ := List.mem_flatMap.1 hx
      exact lineBeats_width hx
    rw [lines_bytes, ← hstream] at hright
    have heq : s.beats.length * k.memBytes =
        (s.asked.flatMap lineBeats).length * k.memBytes := hleft.symm.trans hright
    exact (Nat.eq_of_mul_eq_mul_right hpos heq).ge
  reqs_all := by
    intro hmeta
    have hreqs := h.reqs
    rw [hmeta] at hreqs
    exact (List.append_nil _).symm.trans hreqs

/-- **Data of a flush.** In every run whose cycles are steady, what is sent is the beats and the
requests of the lines given to the controller. -/
theorem correct_run (c : Cache k.cache) {is : List (CacheIn k.cache)}
    (h : Along Flushing.step Steady (start c) is) : (run Flushing.step (start c) is).Correct :=
  (h.invariant (start_inv c) fun _ _ hi hs => Inv.step hi hs).correct

/-- What is checked of a cycle for it to be steady. -/
def checks (s : Flushing k) (i : CacheIn k.cache) : Bool :=
  ((s.gives i).isNone || decide (∃ w, ∀ v, (s.cache.flushIn i).allocWay v = ofIndex w v)) &&
    (decide (s.cache.flush.fsmQ = .idle) && (s.gives i).isNone ||
      !(s.cache.mem.dataWrite (s.cache.memIn i)).write && !(s.cache.memIn i).dataReqRead &&
        !(s.cache.memIn i).dataErrRead) &&
    (decide (s.cache.flush.fsmQ = .idle) || !s.cache.flush.resizerWok ||
      s.cache.mem.dataFlushReadQ)

theorem steady_of_checks (hn : k.cache.accessBytes ≤ 64) (hb : k.beats ≤ 256)
    (h : s.checks i = true) : s.Steady i := by
  simp only [checks, Bool.and_eq_true, Bool.or_eq_true, Bool.not_eq_true', decide_eq_true_eq,
    Option.isNone_iff_eq_none] at h
  obtain ⟨⟨hway, hport⟩, hlane⟩ := h
  refine ⟨hn, hb, ?_, ?_, ?_⟩
  · intro hg
    rcases hway with hno | ⟨w, hw⟩
    · rw [hno] at hg
      contradiction
    · exact ⟨w, funext hw⟩
  · intro hact
    rcases hport with ⟨hf, hno⟩ | ⟨⟨h1, h2⟩, h3⟩
    · rcases hact with hact | hact
      · rw [hf] at hact
        contradiction
      · rw [hno] at hact
        contradiction
    · exact ⟨h1, h2, h3⟩
  · intro hf hok _
    rcases hlane with (hx | hx) | hx
    · rw [hf] at hx
      contradiction
    · rw [hok] at hx
      contradiction
    · exact .inr (.inl hx)

end

/-! ## A stall of the buffer with ECC -/

def eccLineCfg : Cfg := Cfg.small true true true true (Cfg.policy_wt true) Cfg.latency_ecc

theorem one_lt_eight : 1 < 8 := by decide

theorem accessWords_dvd_eight : eccLineCfg.accessWords ∣ 8 := by decide

theorem wbufWords_dvd_eight : eccLineCfg.reqWords * eccLineCfg.wbufWords ∣ 8 := by decide

theorem memWords_dvd_eight : eccLineCfg.memWords ∣ 8 := by decide

theorem memWords_dvd_accessWords : eccLineCfg.memWords ∣ eccLineCfg.accessWords := by decide

theorem two_dvd_ways : 2 ∣ eccLineCfg.ways := by decide

/-- Both ways in a RAM word, a line of four chunks, and room for two beats. -/
def stallCfg : RefillCfg where
  cache := { eccLineCfg with
    clWords := 8
    dataWaysPerRamWord := 2
    clWords_gt := one_lt_eight
    accessWords_dvd := accessWords_dvd_eight
    wbufWords_dvd := wbufWords_dvd_eight
    memWords_dvd := memWords_dvd_eight
    dataWaysPerRamWord_pos := Nat.two_pos
    dataWaysPerRamWord_dvd := two_dvd_ways }
  resizable := .inl memWords_dvd_accessWords

/-- A line full of ones. -/
def ones : CacheIn stallCfg.cache :=
  { CacheIn.idle stallCfg.cache with
    missResp :=
      some ⟨false, ⟨0, by decide⟩, ⟨0, by decide⟩, false, Nline.zero _, fun _ => 1⟩ }

/-- The memory takes no data. -/
def busy : CacheIn stallCfg.cache := { CacheIn.idle stallCfg.cache with flushDataReady := false }

/-- A store makes a line dirty, and a load with the write-through policy has it flushed. The memory
takes no data in the first `n` cycles of the flush. -/
def stallRun (n : Nat) : List (CacheIn stallCfg.cache) :=
  [.idle _, .idle _, .ask { Req.access .store 1 false with pma := ⟨false, .wb⟩ }, .idle _, .idle _,
    ones, .idle _, .idle _, .idle _, .idle _, .idle _, .idle _,
    .ask { Req.access .load 1 false with pma := ⟨false, .wt⟩ }] ++
    List.replicate n busy ++ List.replicate 8 (.idle _)

/-- A memory that is ready takes the four beats of the line. -/
theorem correct_ready :
    Along Flushing.step Steady (start (Cache.blank stallCfg.cache)) (stallRun 0) ∧
      (run Flushing.step (start (Cache.blank stallCfg.cache)) (stallRun 0)).Correct := by
  have hal : Along Flushing.step Steady (start (Cache.blank stallCfg.cache)) (stallRun 0) :=
    Along.mono (P := fun s i => s.checks i = true) (by decide +kernel) fun _ _ h =>
      steady_of_checks (by decide) (by decide) h
  exact ⟨hal, correct_run _ hal⟩

/-- A memory that is not ready for six cycles takes a beat of zeros instead of the third one. -/
theorem stall_not_correct :
    ¬ (run Flushing.step (start (Cache.blank stallCfg.cache)) (stallRun 6)).Correct := by
  intro h
  have hlt : 2 < (run Flushing.step (start (Cache.blank stallCfg.cache))
      (stallRun 6)).beats.length := by
    decide +kernel
  have hbeat : ((run Flushing.step (start (Cache.blank stallCfg.cache))
      (stallRun 6)).beats[2]?.map fun x => x.data[0]?) = some (some 0) := by
    decide +kernel
  have hline : ((((run Flushing.step (start (Cache.blank stallCfg.cache))
      (stallRun 6)).asked.flatMap lineBeats)[2]?).map fun x => x.data[0]?) = some (some 1) := by
    decide +kernel
  rw [List.prefix_iff_getElem?.1 h.beats 2 hlt] at hline
  rw [List.getElem?_eq_getElem hlt] at hbeat
  exact absurd (hline.symm.trans hbeat) (by decide)

end Flushing

end Hpdcache
