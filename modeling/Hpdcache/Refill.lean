import Hpdcache.Lib.Resize
import Hpdcache.Lib.System
import Hpdcache.Quiet

/-!
# Refill responses, beat by beat

The channel on which the memory answers the misses. Each transfer is one beat of a response, or an
invalidation. The data of the beats go through a buffer that converts their width to that of the
data RAM; the rest is kept of the last beat only, in a buffer that the invalidations share.

**The responses.** Beside the two buffers runs an inbox of whole responses: what the two buffers
hold is the content of the inbox, from the word at which the refill FSM is.

* `Refiller.step` — one cycle.
* `Refilling.Inv` — the buffers hold what is in the inbox.
* `Refilling.safe_iff` — when the buffers cannot block, and what the refill FSM reads.
-/

namespace Hpdcache

open Hw

/-- A configuration in which the data of the memory can be resized to that of the data RAM. -/
structure RefillCfg where
  cache : Cfg
  resizable : cache.memWords ∣ cache.accessWords ∨ cache.accessWords ∣ cache.memWords

/-! ## Transfers -/

/-- A transfer of the memory. The fields of a beat are arbitrary in an invalidation. -/
structure MemResp (c : Cfg) where
  rError : Bool
  rSet : Fin c.mshrSets
  rWay : Fin c.mshrWays
  rLast : Bool
  rData : Nat → Byte
  inval : Bool
  invalNline : Nline c

/-- What is kept of a transfer, its data apart. -/
structure RespMeta (c : Cfg) where
  rError : Bool
  rSet : Fin c.mshrSets
  rWay : Fin c.mshrWays
  isInval : Bool
  invalNline : Nline c

/-- The error flag is that of this beat, whatever the others of the response were. -/
def MemResp.toMeta {c : Cfg} (x : MemResp c) : RespMeta c :=
  ⟨x.rError, x.rSet, x.rWay, x.inval, x.invalNline⟩

namespace RefillCfg

variable (k : RefillCfg)

def memBytes : Nat := k.cache.memWords * k.cache.wordBytes

/-- The beats of a response. -/
def beats : Nat := k.cache.clWords / k.cache.memWords

/-- The words of a slot, written on one side. -/
def wr : Nat := max 1 (k.cache.accessWords / k.cache.memWords)

/-- The words of a slot, read on the other side. -/
def rd : Nat := max 1 (k.cache.memWords / k.cache.accessWords)

theorem wr_pos : 0 < k.wr := Nat.lt_of_lt_of_le Nat.one_pos (Nat.le_max_left _ _)

theorem rd_pos : 0 < k.rd := Nat.lt_of_lt_of_le Nat.one_pos (Nat.le_max_left _ _)

theorem memBytes_pos : 0 < k.memBytes := Nat.mul_pos k.cache.memWords_pos k.cache.wordBytes_pos

theorem accessBytes_pos : 0 < k.cache.accessBytes :=
  Nat.mul_pos k.cache.accessWords_pos k.cache.wordBytes_pos

theorem slot_eq : k.wr * k.memBytes = k.rd * k.cache.accessBytes := by
  have hm := k.cache.memWords_pos
  have ha := k.cache.accessWords_pos
  simp only [wr, rd, memBytes, Cfg.accessBytes, ← Nat.mul_assoc]
  congr 1
  rcases k.resizable with h | h
  · have hle := Nat.le_of_dvd ha h
    have hwr : max 1 (k.cache.accessWords / k.cache.memWords) * k.cache.memWords =
        k.cache.accessWords := by
      rw [Nat.max_eq_right (Nat.div_pos hle hm), Nat.div_mul_cancel h]
    have hrd : k.cache.memWords / k.cache.accessWords ≤ 1 :=
      Nat.div_le_of_le_mul (by omega)
    rw [hwr, Nat.max_eq_left hrd, Nat.one_mul]
  · have hle := Nat.le_of_dvd hm h
    have hrd : max 1 (k.cache.memWords / k.cache.accessWords) * k.cache.accessWords =
        k.cache.memWords := by
      rw [Nat.max_eq_right (Nat.div_pos hle ha), Nat.div_mul_cancel h]
    have hwr : k.cache.accessWords / k.cache.memWords ≤ 1 :=
      Nat.div_le_of_le_mul (by omega)
    rw [hrd, Nat.max_eq_left hwr, Nat.one_mul]

theorem one_side : k.wr = 1 ∨ k.rd = 1 := by
  have hm := k.cache.memWords_pos
  have ha := k.cache.accessWords_pos
  rcases k.resizable with h | h
  · right
    exact Nat.max_eq_left (Nat.div_le_of_le_mul (by have := Nat.le_of_dvd ha h; omega))
  · left
    exact Nat.max_eq_left (Nat.div_le_of_le_mul (by have := Nat.le_of_dvd hm h; omega))

/-- The buffer of the data. -/
def resize : ResizeCfg where
  depth := k.cache.refillFifoDepth
  wr := k.wr
  rd := k.rd
  wrWidth := k.memBytes
  rdWidth := k.cache.accessBytes
  wr_pos := k.wr_pos
  rd_pos := k.rd_pos
  wrWidth_pos := k.memBytes_pos
  rdWidth_pos := k.accessBytes_pos
  slot_eq := k.slot_eq
  one := k.one_side

end RefillCfg

/-! ## The two buffers -/

structure RespPath (k : RefillCfg) where
  metaFifo : List (RespMeta k.cache)
  data : Resize Byte

namespace RespPath

variable {k : RefillCfg} (p : RespPath k) (x : Option (MemResp k.cache))

def metaWok : Bool := Fifo.wok k.cache.refillFifoDepth false p.metaFifo false

def dataWok : Bool := p.data.wok k.resize

/-- The data are written with each beat, the last one only if the rest can be written too. -/
def dataW : Bool := x.any fun y => (p.metaWok || !y.rLast) && !y.inval

def metaW : Bool := x.any fun y => (p.dataWok && y.rLast) || y.inval

def ready : Bool :=
  x.any fun y => if y.inval then p.metaWok else (p.metaWok || !y.rLast) && p.dataWok

/-- The transfer that is taken. -/
def taken : Option (MemResp k.cache) := if p.ready x then x else none

def step (metaR dataR : Bool) : RespPath k where
  metaFifo := Fifo.step k.cache.refillFifoDepth false p.metaFifo
    (if p.metaW x then x.map MemResp.toMeta else none) metaR
  data := p.data.step k.resize (p.dataW x) (x.any MemResp.rLast)
    (x.elim (fun _ => 0) MemResp.rData) dataR

end RespPath

/-! ## The miss handler with its buffers -/

/-- The miss handler, in which the buffer of whole responses is not used. -/
structure Refiller (k : RefillCfg) where
  miss : MissHandler k.cache
  path : RespPath k

structure RefillIn (k : RefillCfg) where
  miss : MissIn k.cache
  resp : Option (MemResp k.cache)

namespace Refiller

variable {k : RefillCfg}

def reset (u : Refiller k) : Refiller k := ⟨u.miss.reset, ⟨[], Resize.empty⟩⟩

variable (u : Refiller k) (i : RefillIn k)

/-- What the refill FSM sees of the buffers in a cycle: the data are those of the chunk at which it
is. -/
def view : MissHandler k.cache :=
  { u.miss with
    respFifo := u.path.metaFifo.map fun m =>
      { rError := m.rError
        rSet := m.rSet
        rWay := m.rWay
        isInval := m.isInval
        invalNline := m.invalNline
        data := fun a =>
          u.path.data.rdata k.resize (a - u.miss.refillCntQ * k.cache.wordBytes) } }

def out : RefillOut k.cache := u.view.refillComb i.miss

/-- The FSM takes a chunk in each cycle that it writes. -/
def dataR : Bool := decide (u.miss.refillFsmQ = .write)

def step : Refiller k where
  miss := { u.view.step i.miss with respFifo := [] }
  path := u.path.step i.resp (u.out i).metaR u.dataR

end Refiller

/-! ## The inbox -/

/-- A response, as the transfers of which it is made. An invalidation is made of one. -/
structure Resp (c : Cfg) where
  init : List (MemResp c)
  last : MemResp c

namespace Resp

variable {k : RefillCfg}

def beats {c : Cfg} (r : Resp c) : List (MemResp c) := r.init ++ [r.last]

def toMeta {c : Cfg} (r : Resp c) : RespMeta c := r.last.toMeta

def isInval {c : Cfg} (r : Resp c) : Bool := r.last.inval

/-- The line that the beats carry. -/
def line (k : RefillCfg) (r : Resp k.cache) : Nat → Byte :=
  concat k.memBytes (r.beats.map MemResp.rData)

/-- The bytes that the response puts in the data buffer. -/
def bytes (k : RefillCfg) (r : Resp k.cache) : List Byte :=
  if r.isInval then [] else r.beats.flatMap fun y => units k.memBytes y.rData

end Resp

/-- The responses that are whole, and the beats of the one that is not. -/
structure Inbox (c : Cfg) where
  pend : List (Resp c)
  cur : List (MemResp c)

namespace Inbox

variable {c : Cfg}

/-- The response that is completed. -/
def pushed (b : Inbox c) (x : Option (MemResp c)) : Option (Resp c) :=
  x.bind fun y =>
    if y.inval then some ⟨[], y⟩ else if y.rLast then some ⟨b.cur, y⟩ else none

def curNext (b : Inbox c) (x : Option (MemResp c)) : List (MemResp c) :=
  match x with
  | none => b.cur
  | some y => if y.inval then b.cur else if y.rLast then [] else b.cur ++ [y]

def step (b : Inbox c) (x : Option (MemResp c)) (pop : Bool) : Inbox c where
  pend := (if pop then b.pend.tail else b.pend) ++ (b.pushed x).toList
  cur := b.curNext x

end Inbox

/-- The miss handler and the inbox of the responses that it has taken. -/
structure Refilling (k : RefillCfg) where
  unit : Refiller k
  box : Inbox k.cache

namespace Refilling

variable {k : RefillCfg}

def start (u : Refiller k) : Refilling k := ⟨u.reset, ⟨[], []⟩⟩

variable (s : Refilling k) (i : RefillIn k)

def step : Refilling k where
  unit := s.unit.step i
  box := s.box.step (s.unit.path.taken i.resp) (s.unit.out i).metaR

/-- The memory sends the beats of one response after the other, and flags the last one. -/
def Framed : Prop :=
  ∀ y, i.resp = some y → y.inval = false → (y.rLast = true ↔ s.box.cur.length + 1 = k.beats)

/-- The bytes of the response at hand that the refill FSM has taken. -/
def consumed {c : Cfg} (m : MissHandler c) : Nat :=
  match m.refillFsmQ with
  | .write => m.refillCntQ * c.wordBytes
  | .writeDir => c.clBytes
  | _ => 0

/-- The buffers hold what is in the inbox. -/
structure Inv (s : Refilling k) : Prop where
  metas : s.unit.path.metaFifo = s.box.pend.map Resp.toMeta
  wf : s.unit.path.data.Wf k.resize
  content : s.unit.path.data.content k.resize =
    (s.box.pend.flatMap (Resp.bytes k)).drop (consumed s.unit.miss) ++
      s.box.cur.flatMap fun y => units k.memBytes y.rData
  whole : ∀ r ∈ s.box.pend, r.isInval = false → r.beats.length = k.beats
  cur : s.box.cur.length < k.beats
  part : s.unit.path.data.part.length = s.box.cur.length % k.resize.wr
  busy : s.unit.miss.refillFsmQ ≠ .idle →
    ∃ r rest, s.box.pend = r :: rest ∧ (r.isInval = true ↔ s.unit.miss.refillFsmQ = .inval)
  cnt : s.unit.miss.refillFsmQ = .write →
    ∃ n, s.unit.miss.refillCntQ = n * k.cache.accessWords ∧
      s.unit.miss.refillCntQ + k.cache.accessWords ≤ k.cache.clWords
  dir : s.unit.miss.refillFsmQ = .writeDir → k.cache.clWords = k.cache.accessWords
  buf : s.unit.miss.coreRspBuf.length ≤ 1

end Refilling

/-! ## What a cycle does -/

/-- What the refill FSM can do in a cycle. -/
theorem MissHandler.refillComb_cases {c : Cfg} (m : MissHandler c) (i : MissIn c) :
    (m.refillFsmQ = .idle ∧ (m.refillComb i).metaR = false ∧ (m.refillComb i).fsmD = .idle) ∨
    (m.refillFsmQ = .idle ∧ m.metaRok = true ∧ m.head.isInval = true ∧
      (m.refillComb i).metaR = false ∧ (m.refillComb i).fsmD = .inval) ∨
    (m.refillFsmQ = .idle ∧ m.metaRok = true ∧ m.head.isInval = false ∧
      (m.refillComb i).metaR = false ∧ (m.refillComb i).fsmD = .write ∧
        (m.refillComb i).cntD = 0) ∨
    (m.refillFsmQ = .write ∧ m.refillCntQ ≠ refillLastChunkWord c ∧
      (m.refillComb i).metaR = false ∧ (m.refillComb i).fsmD = .write ∧
        (m.refillComb i).cntD = m.refillCntQ + c.accessWords) ∨
    (m.refillFsmQ = .write ∧ m.refillCntQ = refillLastChunkWord c ∧ refillLastChunkWord c = 0 ∧
      (m.refillComb i).metaR = false ∧ (m.refillComb i).fsmD = .writeDir) ∨
    (((m.refillFsmQ = .write ∧ m.refillCntQ = refillLastChunkWord c ∧ refillLastChunkWord c ≠ 0) ∨
        m.refillFsmQ = .writeDir ∨ m.refillFsmQ = .inval) ∧
      (m.refillComb i).metaR = true ∧ (m.refillComb i).fsmD = .idle) := by
  cases hf : m.refillFsmQ with
  | idle =>
    simp only [refillComb, hf, refillIdle]
    cases hr : m.metaRok with
    | false => left; simp [refillDefault, hf]
    | true =>
      cases hg : i.refillReqReady with
      | false => left; simp [refillDefault, hf]
      | true =>
        cases hv : m.head.isInval with
        | true => right; left; simp [refillDefault]
        | false => right; right; left; simp [refillDefault]
  | write =>
    have hmeta : m.refillChunk.metaR = false ∧ m.refillChunk.fsmD = .write := by
      unfold refillChunk refillFirst refillNext
      split_ifs
      · exact ⟨rfl, hf⟩
      · exact ⟨rfl, hf⟩
    simp only [refillComb, hf, refillWrite]
    by_cases hc : m.refillCntQ = refillLastChunkWord c
    · by_cases h0 : refillLastChunkWord c = 0
      · right; right; right; right; left
        simp [hc, h0, hmeta]
      · right; right; right; right; right
        simp [hc, h0, refillLast]
    · right; right; right; left
      simp [hc, hmeta]
  | writeDir =>
    right; right; right; right; right
    simp [refillComb, hf, refillLast]
  | inval =>
    right; right; right; right; right
    simp [refillComb, hf]

/-- The registers are loaded in the cycle after an acknowledge. -/
theorem MissHandler.ack_of_load {c : Cfg} {m : MissHandler c} {i : MissIn c}
    (hl : (m.step i).refillLoad = true) :
    (m.refillComb i).ack = true ∧ (m.refillComb i).ackCs = true := by
  obtain ⟨hfsm, hcnt⟩ := of_decide_eq_true hl
  have hfsm : (m.refillComb i).fsmD = .write := hfsm
  have hcnt : (m.refillComb i).cntD = 0 := hcnt
  have hpos := c.accessWords_pos
  rcases m.refillComb_cases i with ⟨-, -, hd⟩ | ⟨-, -, -, -, hd⟩ | ⟨hf, hrok, hv, -, -⟩ |
    ⟨-, -, -, -, hd⟩ | ⟨-, -, -, -, hd⟩ | ⟨-, -, hd⟩
  · rw [hd] at hfsm
    contradiction
  · rw [hd] at hfsm
    contradiction
  · have hready : i.refillReqReady = true := by
      by_contra hno
      rw [Bool.not_eq_true] at hno
      have hidle : (m.refillComb i).fsmD = .idle := by
        simp [refillComb, hf, refillIdle, hrok, hno, refillDefault]
      rw [hidle] at hfsm
      contradiction
    simp [refillComb, hf, refillIdle, hrok, hready, hv]
  · rw [hd] at hcnt
    omega
  · rw [hd] at hfsm
    contradiction
  · rw [hd] at hfsm
    contradiction

theorem MissHandler.dirty_of_load {c : Cfg} {m : MissHandler c} {i : MissIn c}
    (hl : m.refillLoad = true) : (m.refillComb i).dirty = m.mshr.ackEntry.dirty := by
  obtain ⟨hf, hc⟩ := of_decide_eq_true hl
  simp only [refillComb, hf, refillWrite, refillChunk, hc, if_true]
  split_ifs <;> rfl

namespace Resp

variable {k : RefillCfg} {r : Resp k.cache}

theorem beats_mul (k : RefillCfg) : k.beats * k.memBytes = k.cache.clBytes := by
  rw [RefillCfg.beats, RefillCfg.memBytes, ← Nat.mul_assoc,
    Nat.div_mul_cancel k.cache.memWords_dvd, Cfg.clBytes]

theorem bytes_eq (hv : r.isInval = false) (hw : r.beats.length = k.beats) :
    r.bytes k = units k.cache.clBytes (r.line k) := by
  have hpos : 0 < k.memBytes := Nat.mul_pos k.cache.memWords_pos k.cache.wordBytes_pos
  have hlen : (r.beats.map MemResp.rData).length * k.memBytes = k.cache.clBytes := by
    rw [List.length_map, hw, beats_mul]
  rw [bytes, hv, if_neg Bool.false_ne_true, line, ← hlen, units_concat hpos, List.flatMap_map]

theorem bytes_inval (hv : r.isInval = true) : r.bytes k = [] := by
  simp [bytes, hv]

end Resp

namespace Refilling

variable {k : RefillCfg} {s : Refilling k} {i : RefillIn k}

theorem start_inv (u : Refiller k) : (start u).Inv where
  metas := rfl
  wf := Resize.wf_empty
  content := rfl
  whole := nofun
  cur := Nat.div_pos (Nat.le_of_dvd k.cache.clWords_pos k.cache.memWords_dvd) k.cache.memWords_pos
  part := by simp [start, Refiller.reset, Resize.empty]
  busy := fun h => absurd rfl h
  cnt := nofun
  dir := nofun
  buf := Nat.zero_le _

/-- The response at the head of the inbox is the one whose fields the FSM reads. -/
theorem Inv.head (h : s.Inv) {r : Resp k.cache} {rest : List (Resp k.cache)}
    (hp : s.box.pend = r :: rest) :
    s.unit.view.metaRok = true ∧ s.unit.view.head.isInval = r.isInval ∧
      s.unit.view.head.rError = r.last.rError ∧ s.unit.view.head.rSet = r.last.rSet ∧
      s.unit.view.head.rWay = r.last.rWay := by
  have hm : s.unit.path.metaFifo = r.toMeta :: rest.map Resp.toMeta := by
    rw [h.metas, hp, List.map_cons]
  simp only [MissHandler.metaRok, MissHandler.head, Refiller.view, hm, List.map_cons,
    List.headD_cons, List.isEmpty_cons]
  exact ⟨rfl, rfl, rfl, rfl, rfl⟩

theorem Inv.pend_of_metaRok (h : s.Inv) (hm : s.unit.view.metaRok = true) :
    ∃ r rest, s.box.pend = r :: rest := by
  cases hp : s.box.pend with
  | cons r rest => exact ⟨r, rest, rfl⟩
  | nil =>
    have hnil : s.unit.path.metaFifo = [] := by rw [h.metas, hp]; rfl
    simp [MissHandler.metaRok, Refiller.view, hnil] at hm

/-- While the FSM writes a line, the buffer holds what is left of it and the responses behind. -/
theorem Inv.content_write (h : s.Inv) (hf : s.unit.miss.refillFsmQ = .write) :
    ∃ r rest, s.box.pend = r :: rest ∧ r.isInval = false ∧
      s.unit.path.data.content k.resize =
        (r.bytes k ++ rest.flatMap (Resp.bytes k)).drop
            (s.unit.miss.refillCntQ * k.cache.wordBytes) ++
          s.box.cur.flatMap (fun y => units k.memBytes y.rData) ∧
      r.bytes k = units k.cache.clBytes (r.line k) ∧
      s.unit.miss.refillCntQ * k.cache.wordBytes + k.cache.accessBytes ≤ k.cache.clBytes := by
  obtain ⟨r, rest, hp, hiff⟩ := h.busy (by rw [hf]; decide)
  obtain ⟨-, -, hcnt⟩ := h.cnt hf
  have hv : r.isInval = false := by
    rw [hf] at hiff
    simpa using hiff
  refine ⟨r, rest, hp, hv, ?_, Resp.bytes_eq hv (h.whole r (by simp [hp]) hv), ?_⟩
  · rw [h.content, hp, List.flatMap_cons]
    simp only [consumed, hf]
  · rw [Cfg.accessBytes, ← Nat.add_mul]
    exact Nat.mul_le_mul_right _ hcnt

/-- The FSM never reads an empty buffer. -/
theorem Inv.rok (h : s.Inv) (hf : s.unit.miss.refillFsmQ = .write) :
    s.unit.path.data.rok = true := by
  obtain ⟨r, rest, -, -, hc, hb, hle⟩ := h.content_write hf
  apply Resize.rok_of_le h.wf
  have hlen : (r.bytes k).length = k.cache.clBytes := by rw [hb, length_units]
  have hrd : k.resize.rdWidth = k.cache.accessBytes := rfl
  rw [hc, hrd]
  simp only [List.length_append, List.length_drop, hlen]
  omega

/-- The data that the FSM reads are those of the response at the head of the inbox. -/
theorem Inv.rdata (h : s.Inv) (hf : s.unit.miss.refillFsmQ = .write) :
    ∃ r rest, s.box.pend = r :: rest ∧ r.isInval = false ∧
      ∀ b < k.cache.accessBytes, s.unit.path.data.rdata k.resize b =
        r.line k (s.unit.miss.refillCntQ * k.cache.wordBytes + b) := by
  obtain ⟨r, rest, hp, hv, hc, hb, hle⟩ := h.content_write hf
  refine ⟨r, rest, hp, hv, ?_⟩
  intro b hlt
  have hread := Resize.rdata_eq (k := k.resize) (h.rok hf) hlt
  have hlen : (r.bytes k).length = k.cache.clBytes := by rw [hb, length_units]
  have hidx : s.unit.miss.refillCntQ * k.cache.wordBytes + b < k.cache.clBytes := by omega
  have hget : (s.unit.path.data.content k.resize)[b]? =
      some (r.line k (s.unit.miss.refillCntQ * k.cache.wordBytes + b)) := by
    rw [hc, List.getElem?_append_left (by
      simp only [List.length_drop, List.length_append, hlen]; omega), List.getElem?_drop,
      List.getElem?_append_left (by omega), hb, units_getElem? hidx]
  rw [hget] at hread
  exact (Option.some.inj hread).symm

/-- The responses left after a pop. -/
def popped (s : Refilling k) (i : RefillIn k) : List (Resp k.cache) :=
  if (s.unit.out i).metaR then s.box.pend.tail else s.box.pend

theorem step_fsm : (s.step i).unit.miss.refillFsmQ = (s.unit.out i).fsmD := rfl

theorem step_cnt : (s.step i).unit.miss.refillCntQ = (s.unit.out i).cntD := rfl

/-- The bytes that a cycle reads of the data buffer. -/
def takes (s : Refilling k) : Nat :=
  if s.unit.dataR && s.unit.path.data.rok then k.resize.rdWidth else 0

/-- A cycle reads of the data buffer what the FSM takes of the responses at hand. -/
structure Consumes (s : Refilling k) (i : RefillIn k) : Prop where
  rest : (s.unit.path.data.content k.resize).drop s.takes =
    ((s.popped i).flatMap (Resp.bytes k)).drop (consumed (s.step i).unit.miss) ++
      s.box.cur.flatMap fun y => units k.memBytes y.rData
  within : consumed (s.step i).unit.miss ≤ ((s.popped i).flatMap (Resp.bytes k)).length

/-- In the states that write nothing the data buffer is not read. -/
theorem takes_of_ne (hf : s.unit.miss.refillFsmQ ≠ .write) : s.takes = 0 := by
  simp [takes, Refiller.dataR, hf]

theorem Inv.takes_write (h : s.Inv) (hf : s.unit.miss.refillFsmQ = .write) :
    s.takes = k.cache.accessBytes := by
  have hrd : k.resize.rdWidth = k.cache.accessBytes := rfl
  simp [takes, Refiller.dataR, hf, h.rok hf, hrd]

theorem popped_of_keep (hr : (s.unit.out i).metaR = false) : s.popped i = s.box.pend := by
  simp [popped, hr]

theorem popped_of_pop (hr : (s.unit.out i).metaR = true) : s.popped i = s.box.pend.tail := by
  simp [popped, hr]

/-- An idle FSM has taken no bytes, and takes none in its first cycle. -/
theorem Inv.consumes_idle (h : s.Inv) (hf : s.unit.miss.refillFsmQ = .idle)
    (hr : (s.unit.out i).metaR = false) (hn : consumed (s.step i).unit.miss = 0) :
    s.Consumes i := by
  have ho : consumed s.unit.miss = 0 := by simp [consumed, hf]
  have ht : s.takes = 0 := takes_of_ne (by rw [hf]; decide)
  refine ⟨?_, by rw [hn]; exact Nat.zero_le _⟩
  rw [ht, hn, popped_of_keep hr, h.content, ho]
  rfl

/-- A chunk is taken of a response that stays. -/
theorem Inv.consumes_chunk (h : s.Inv) (hf : s.unit.miss.refillFsmQ = .write)
    (hr : (s.unit.out i).metaR = false)
    (hn : consumed (s.step i).unit.miss =
      s.unit.miss.refillCntQ * k.cache.wordBytes + k.cache.accessBytes) : s.Consumes i := by
  obtain ⟨r, rest, hpend, hv, hw, hb, hle⟩ := h.content_write hf
  have hlen : (r.bytes k).length = k.cache.clBytes := by rw [hb, length_units]
  constructor
  · rw [h.takes_write hf, hn, popped_of_keep hr, hpend, List.flatMap_cons, hw,
      List.drop_append_of_le_length (by
        simp only [List.length_drop, List.length_append, hlen]; omega), List.drop_drop]
  · rw [hn, popped_of_keep hr, hpend, List.flatMap_cons, List.length_append, hlen]
    omega

section
variable (h : s.Inv)
include h

/-- The last chunk is what is left of the response. -/
theorem Inv.rest_last (hf : s.unit.miss.refillFsmQ = .write)
    (hl : s.unit.miss.refillCntQ = k.cache.clWords - k.cache.accessWords) :
    (s.unit.path.data.content k.resize).drop s.takes =
      s.box.pend.tail.flatMap (Resp.bytes k) ++
        s.box.cur.flatMap fun y => units k.memBytes y.rData := by
  obtain ⟨r, rest, hpend, hv, hw, hb, hle⟩ := h.content_write hf
  obtain ⟨-, -, hcnt⟩ := h.cnt hf
  have hlen : (r.bytes k).length = k.cache.clBytes := by rw [hb, length_units]
  have hend : s.unit.miss.refillCntQ * k.cache.wordBytes + k.cache.accessBytes =
      k.cache.clBytes := by
    rw [Cfg.accessBytes, ← Nat.add_mul, hl, Nat.sub_add_cancel (by omega), Cfg.clBytes]
  rw [h.takes_write hf, hw, hpend, List.tail_cons, List.drop_append_of_le_length (by
    simp only [List.length_drop, List.length_append, hlen]; omega), List.drop_drop, hend,
    List.drop_append_of_le_length (by omega), ← hlen, List.drop_length, List.nil_append]

/-- The line was taken whole in the cycle before. -/
theorem Inv.rest_dir (hf : s.unit.miss.refillFsmQ = .writeDir) :
    (s.unit.path.data.content k.resize).drop s.takes =
      s.box.pend.tail.flatMap (Resp.bytes k) ++
        s.box.cur.flatMap fun y => units k.memBytes y.rData := by
  obtain ⟨r, rest, hpend, hiff⟩ := h.busy (by rw [hf]; decide)
  have hv : r.isInval = false := by
    rw [hf] at hiff
    simpa using hiff
  have hlen : (r.bytes k).length = k.cache.clBytes := by
    rw [Resp.bytes_eq hv (h.whole r (by simp [hpend]) hv), length_units]
  have hcons : consumed s.unit.miss = k.cache.clBytes := by simp [consumed, hf]
  have ht : s.takes = 0 := takes_of_ne (by rw [hf]; decide)
  rw [ht, h.content, hcons, hpend, List.flatMap_cons, List.tail_cons, List.drop_left' hlen]
  rfl

/-- An invalidation has no data. -/
theorem Inv.rest_inval (hf : s.unit.miss.refillFsmQ = .inval) :
    (s.unit.path.data.content k.resize).drop s.takes =
      s.box.pend.tail.flatMap (Resp.bytes k) ++
        s.box.cur.flatMap fun y => units k.memBytes y.rData := by
  obtain ⟨r, rest, hpend, hiff⟩ := h.busy (by rw [hf]; decide)
  have hcons : consumed s.unit.miss = 0 := by simp [consumed, hf]
  have ht : s.takes = 0 := takes_of_ne (by rw [hf]; decide)
  rw [ht, h.content, hcons, hpend, List.flatMap_cons, Resp.bytes_inval (hiff.2 hf),
    List.tail_cons]
  rfl

end

/-- A read takes the bytes of the response at hand. -/
theorem Inv.consumes (h : s.Inv) : s.Consumes i := by
  rcases MissHandler.refillComb_cases s.unit.view i.miss with
    ⟨hf, hr, hd⟩ | ⟨hf, -, -, hr, hd⟩ | ⟨hf, -, -, hr, hd, hc⟩ | ⟨hf, hne, hr, hd, hc⟩ |
    ⟨hf, hl, h0, hr, hd⟩ | ⟨hf, hr, hd⟩
  · -- nothing to do
    apply h.consumes_idle hf hr
    unfold consumed
    rw [step_fsm, Refiller.out, hd]
  · -- an invalidation starts
    apply h.consumes_idle hf hr
    unfold consumed
    rw [step_fsm, Refiller.out, hd]
  · -- a refill starts
    apply h.consumes_idle hf hr
    unfold consumed
    rw [step_fsm, step_cnt, Refiller.out, hd, hc]
    exact Nat.zero_mul _
  · -- a chunk that is not the last
    apply h.consumes_chunk hf hr
    unfold consumed
    rw [step_fsm, step_cnt, Refiller.out, hd, hc, Cfg.accessBytes, ← Nat.add_mul]
    rfl
  · -- the only chunk of a line that is written in a cycle
    have hcnt0 : s.unit.miss.refillCntQ = 0 := hl.trans h0
    have hcl : k.cache.accessBytes = k.cache.clBytes := by
      have hle := Nat.le_of_dvd k.cache.clWords_pos k.cache.accessWords_dvd
      have h0' : k.cache.clWords - k.cache.accessWords = 0 := h0
      exact congrArg (· * k.cache.wordBytes) (by omega)
    apply h.consumes_chunk hf hr
    rw [hcnt0, Nat.zero_mul, Nat.zero_add, hcl]
    unfold consumed
    rw [step_fsm, Refiller.out, hd]
  · -- the end of a response
    have hn : consumed (s.step i).unit.miss = 0 := by
      unfold consumed
      rw [step_fsm, Refiller.out, hd]
    refine ⟨?_, by rw [hn]; exact Nat.zero_le _⟩
    rw [hn, popped_of_pop hr, List.drop_zero]
    rcases hf with ⟨hf, hl, -⟩ | hf | hf
    · exact h.rest_last hf hl
    · exact h.rest_dir hf
    · exact h.rest_inval hf

/-! ## The step -/

/-- A beat that is offered ends the response exactly when it fills the last slot. -/
theorem Inv.part_last (h : s.Inv) (hf : s.Framed i)
    (hw : s.unit.path.dataW i.resp = true) (hl : i.resp.any MemResp.rLast = true) :
    s.unit.path.data.part.length + 1 = k.resize.wr := by
  cases hx : i.resp with
  | none => simp [RespPath.dataW, hx] at hw
  | some y =>
    simp only [RespPath.dataW, hx, Option.any_some, Bool.and_eq_true, Bool.not_eq_true'] at hw hl
    have hend := (hf y hx hw.2).1 hl
    have hdvd : k.resize.wr ∣ k.beats := by
      show max 1 (k.cache.accessWords / k.cache.memWords) ∣ k.cache.clWords / k.cache.memWords
      have hm := k.cache.memWords_pos
      have ha := k.cache.accessWords_pos
      rcases k.resizable with hd | hd
      · rw [Nat.max_eq_right (Nat.div_pos (Nat.le_of_dvd ha hd) hm)]
        exact Nat.div_dvd_div hd k.cache.accessWords_dvd
      · have hle : k.cache.accessWords / k.cache.memWords ≤ 1 :=
          Nat.div_le_of_le_mul (by have := Nat.le_of_dvd hm hd; omega)
        rw [Nat.max_eq_left hle]
        exact Nat.one_dvd _
    have hwr := k.resize.wr_pos
    obtain ⟨n, hn⟩ := hdvd
    have hpred : s.box.cur.length = k.resize.wr * (n - 1) + (k.resize.wr - 1) := by
      have hn0 : n ≠ 0 := by
        rintro rfl
        omega
      have hmul : k.resize.wr * n = k.resize.wr * (n - 1) + k.resize.wr := by
        rw [← Nat.mul_succ, Nat.succ_eq_add_one, Nat.sub_add_cancel (Nat.pos_of_ne_zero hn0)]
      omega
    rw [h.part, hpred, Nat.mul_add_mod, Nat.mod_eq_of_lt (by omega)]
    omega

/-- A beat is written in the data buffer when it is taken. -/
theorem data_taken (p : RespPath k) (x : Option (MemResp k.cache)) :
    (p.dataW x && p.dataWok) = (p.taken x).any fun y => !y.inval := by
  cases x with
  | none => rfl
  | some y =>
    cases hv : y.inval <;> cases hm : p.metaWok <;> cases hd : p.dataWok <;> cases hl : y.rLast <;>
      simp [RespPath.dataW, RespPath.taken, RespPath.ready, hv, hm, hd, hl]

/-- What is written in the other buffer is the response that is completed. -/
theorem metas_taken (s : Refilling k) (x : Option (MemResp k.cache)) :
    Fifo.accepted k.cache.refillFifoDepth false s.unit.path.metaFifo
        (if s.unit.path.metaW x then x.map MemResp.toMeta else none) false =
      (s.box.pushed (s.unit.path.taken x)).map Resp.toMeta := by
  have hwok : Fifo.wok k.cache.refillFifoDepth false s.unit.path.metaFifo false =
      s.unit.path.metaWok := rfl
  unfold Fifo.accepted
  rw [hwok]
  cases x with
  | none => simp [RespPath.metaW, RespPath.taken, RespPath.ready, Inbox.pushed]
  | some y =>
    cases hv : y.inval <;> cases hm : s.unit.path.metaWok <;> cases hd : s.unit.path.dataWok <;>
      cases hl : y.rLast <;>
      simp [RespPath.metaW, RespPath.taken, RespPath.ready, Inbox.pushed, Resp.toMeta, hv, hm, hd,
        hl]

/-- What is taken goes at the end. -/
theorem content_push (s : Refilling k) (x : Option (MemResp k.cache)) :
    s.box.cur.flatMap (fun y => units k.memBytes y.rData) ++
        (if (x.any fun y => !y.inval) = true
          then units k.memBytes (x.elim (fun _ => 0) MemResp.rData) else []) =
      (s.box.pushed x).toList.flatMap (Resp.bytes k) ++
        (s.box.curNext x).flatMap fun y => units k.memBytes y.rData := by
  cases x with
  | none => simp [Inbox.pushed, Inbox.curNext]
  | some y =>
    cases hv : y.inval <;> cases hl : y.rLast <;>
      simp [Inbox.pushed, Inbox.curNext, Resp.bytes, Resp.isInval, Resp.beats, hv, hl]

theorem taken_eq {p : RespPath k} {x : Option (MemResp k.cache)} {y : MemResp k.cache}
    (h : p.taken x = some y) : x = some y := by
  unfold RespPath.taken at h
  split_ifs at h
  exact h

theorem step_pend : (s.step i).box.pend =
    s.popped i ++ (s.box.pushed (s.unit.path.taken i.resp)).toList := rfl

theorem step_cur : (s.step i).box.cur = s.box.curNext (s.unit.path.taken i.resp) := rfl

/-- The two queues move together. -/
theorem Inv.metas_step (h : s.Inv) :
    (s.step i).unit.path.metaFifo = (s.step i).box.pend.map Resp.toMeta := by
  have hstep : (s.step i).unit.path.metaFifo =
      (if (s.unit.out i).metaR then s.unit.path.metaFifo.tail else s.unit.path.metaFifo) ++
        ((s.box.pushed (s.unit.path.taken i.resp)).map Resp.toMeta).toList := by
    rw [← metas_taken]
    exact Fifo.step_eq
  rw [hstep, step_pend, List.map_append, popped, h.metas]
  congr 1
  · split_ifs
    · exact List.map_tail.symm
    · rfl
  · cases s.box.pushed (s.unit.path.taken i.resp) <;> rfl

/-- The words that are read leave the stream, and those of a beat that is taken enter it. -/
theorem Inv.content_step (h : s.Inv) (hf : s.Framed i) :
    (s.step i).unit.path.data.content k.resize =
      ((s.step i).box.pend.flatMap (Resp.bytes k)).drop (consumed (s.step i).unit.miss) ++
        (s.step i).box.cur.flatMap fun y => units k.memBytes y.rData := by
  have hpart := fun hw hl => h.part_last hf hw hl
  obtain ⟨hread, hle⟩ := h.consumes (i := i)
  have hcontent := Resize.content_step (w := s.unit.path.dataW i.resp)
    (r := s.unit.dataR) (x := i.resp.elim (fun _ => 0) MemResp.rData) h.wf hpart
  have hnew : (if (s.unit.path.dataW i.resp && s.unit.path.data.wok k.resize) = true
      then units k.resize.wrWidth (i.resp.elim (fun _ => 0) MemResp.rData) else []) =
      (if ((s.unit.path.taken i.resp).any fun y => !y.inval) = true
        then units k.memBytes ((s.unit.path.taken i.resp).elim (fun _ => 0) MemResp.rData)
        else []) := by
    have ht : (s.unit.path.dataW i.resp && s.unit.path.data.wok k.resize) =
        (s.unit.path.taken i.resp).any fun y => !y.inval := data_taken _ _
    rw [ht]
    split_ifs with ha
    · cases hx : s.unit.path.taken i.resp with
      | none => simp [hx] at ha
      | some y => rw [taken_eq hx]; rfl
    · rfl
  rw [step_pend, step_cur, List.flatMap_append, List.drop_append_of_le_length hle,
    List.append_assoc, ← content_push, ← List.append_assoc, ← hread, ← hnew]
  exact hcontent

/-- What is completed has all its beats. -/
theorem Inv.whole_step (h : s.Inv) (hf : s.Framed i) :
    ∀ r ∈ (s.step i).box.pend, r.isInval = false → r.beats.length = k.beats := by
  intro r hr hv
  rw [step_pend] at hr
  rcases List.mem_append.1 hr with hr | hr
  · apply h.whole r _ hv
    unfold popped at hr
    split_ifs at hr
    · exact List.mem_of_mem_tail hr
    · exact hr
  · cases hx : s.unit.path.taken i.resp with
    | none => simp [Inbox.pushed, hx] at hr
    | some y =>
      have hoffer := taken_eq hx
      simp only [Inbox.pushed, hx, Option.bind_some] at hr
      split_ifs at hr with hi hl
      · rw [List.mem_singleton.1 hr] at hv
        exact absurd (hv.symm.trans hi) (by decide)
      · rw [List.mem_singleton.1 hr]
        have hend := (hf y hoffer (by simpa using hi)).1 hl
        simpa [Resp.beats] using hend
      · exact absurd hr List.not_mem_nil

theorem Inv.cur_step (h : s.Inv) (hf : s.Framed i) : (s.step i).box.cur.length < k.beats := by
  rw [step_cur]
  have hpos : 0 < k.beats :=
    Nat.div_pos (Nat.le_of_dvd k.cache.clWords_pos k.cache.memWords_dvd) k.cache.memWords_pos
  cases hx : s.unit.path.taken i.resp with
  | none => exact h.cur
  | some y =>
    have hoffer := taken_eq hx
    simp only [Inbox.curNext]
    split_ifs with hi hl
    · exact h.cur
    · exact hpos
    · have hne : ¬ s.box.cur.length + 1 = k.beats :=
        fun he => hl ((hf y hoffer (by simpa using hi)).2 he)
      have := h.cur
      rw [List.length_append, List.length_singleton]
      omega

/-- The words of the slot that is being filled are those of the beats since the last whole one. -/
theorem Inv.part_step (h : s.Inv) (hf : s.Framed i) :
    (s.step i).unit.path.data.part.length = (s.step i).box.cur.length % k.resize.wr := by
  have hpart := fun hw hl => h.part_last hf hw hl
  have hstep := Resize.part_step (w := s.unit.path.dataW i.resp) (r := s.unit.dataR)
    (x := i.resp.elim (fun _ => 0) MemResp.rData) h.wf hpart
  have ht : (s.unit.path.dataW i.resp && s.unit.path.data.wok k.resize) =
      (s.unit.path.taken i.resp).any fun y => !y.inval := data_taken _ _
  rw [ht] at hstep
  have hlen : (s.step i).unit.path.data.part.length = _ := hstep
  rw [hlen, step_cur]
  cases hx : s.unit.path.taken i.resp with
  | none => simpa [Inbox.curNext] using h.part
  | some y =>
    have hoffer := taken_eq hx
    cases hi : y.inval with
    | true => simpa [Inbox.curNext, hi] using h.part
    | false =>
      have hw : s.unit.path.dataW i.resp = true := by
        have hand := ht
        rw [hx] at hand
        simp only [Option.any_some, hi, Bool.not_false, Bool.and_eq_true] at hand
        exact hand.1
      cases hl : y.rLast with
      | true =>
        have hfull := hpart hw (by simp [hoffer, hl])
        simp [Inbox.curNext, hi, hl, hfull]
      | false => simp [Inbox.curNext, hi, hl, h.part, Nat.add_mod]

/-- The FSM works on the head of the inbox. -/
theorem Inv.busy_step (h : s.Inv) (hb : (s.step i).unit.miss.refillFsmQ ≠ .idle) :
    ∃ r rest, (s.step i).box.pend = r :: rest ∧
      (r.isInval = true ↔ (s.step i).unit.miss.refillFsmQ = .inval) := by
  rw [step_fsm] at hb ⊢
  have hkeep : ∀ r rest, s.box.pend = r :: rest → (s.unit.out i).metaR = false →
      ∃ rest', (s.step i).box.pend = r :: rest' := by
    intro r rest hp hr
    refine ⟨rest ++ (s.box.pushed (s.unit.path.taken i.resp)).toList, ?_⟩
    rw [step_pend, popped, hr, hp]
    rfl
  rcases MissHandler.refillComb_cases s.unit.view i.miss with
    ⟨-, -, hd⟩ | ⟨-, hm, hv, hr, hd⟩ | ⟨-, hm, hv, hr, hd, -⟩ | ⟨hw, -, hr, hd, -⟩ |
    ⟨hw, -, -, hr, hd⟩ | ⟨-, -, hd⟩
  · exact absurd hd hb
  · obtain ⟨r, rest, hp⟩ := h.pend_of_metaRok hm
    obtain ⟨rest', hp'⟩ := hkeep r rest hp hr
    refine ⟨r, rest', hp', ?_⟩
    rw [← (h.head hp).2.1, hv]
    exact iff_of_true rfl hd
  · obtain ⟨r, rest, hp⟩ := h.pend_of_metaRok hm
    obtain ⟨rest', hp'⟩ := hkeep r rest hp hr
    refine ⟨r, rest', hp', ?_⟩
    rw [← (h.head hp).2.1, hv, Refiller.out, hd]
    decide
  · have hfsm : s.unit.miss.refillFsmQ = .write := hw
    obtain ⟨r, rest, hp, hiff⟩ := h.busy (by rw [hfsm]; decide)
    obtain ⟨rest', hp'⟩ := hkeep r rest hp hr
    refine ⟨r, rest', hp', hiff.trans ?_⟩
    rw [Refiller.out, hd, hfsm]
  · have hfsm : s.unit.miss.refillFsmQ = .write := hw
    obtain ⟨r, rest, hp, hiff⟩ := h.busy (by rw [hfsm]; decide)
    obtain ⟨rest', hp'⟩ := hkeep r rest hp hr
    refine ⟨r, rest', hp', hiff.trans ?_⟩
    rw [Refiller.out, hd, hfsm]
    decide
  · exact absurd hd hb

/-- The next chunk is one of the line. -/
theorem Inv.cnt_step (h : s.Inv) (hw : (s.step i).unit.miss.refillFsmQ = .write) :
    ∃ n, (s.step i).unit.miss.refillCntQ = n * k.cache.accessWords ∧
      (s.step i).unit.miss.refillCntQ + k.cache.accessWords ≤ k.cache.clWords := by
  rw [step_fsm] at hw
  rw [step_cnt]
  have hdvd := k.cache.accessWords_dvd
  rcases MissHandler.refillComb_cases s.unit.view i.miss with
    ⟨-, -, hd⟩ | ⟨-, -, -, -, hd⟩ | ⟨-, -, -, -, -, hc⟩ | ⟨hf, hne, -, -, hc⟩ |
    ⟨-, -, -, -, hd⟩ | ⟨-, -, hd⟩
  · exact absurd (hd.symm.trans hw) (by decide)
  · exact absurd (hd.symm.trans hw) (by decide)
  · refine ⟨0, hc.trans (Nat.zero_mul _).symm, ?_⟩
    rw [Refiller.out, hc, Nat.zero_add]
    exact Nat.le_of_dvd k.cache.clWords_pos hdvd
  · obtain ⟨n, hn, hle⟩ := h.cnt hf
    have hc' : (s.unit.out i).cntD = s.unit.miss.refillCntQ + k.cache.accessWords := hc
    refine ⟨n + 1, by rw [hc', hn, Nat.add_mul, Nat.one_mul], ?_⟩
    obtain ⟨j, hj⟩ := hdvd
    have hne' : s.unit.miss.refillCntQ ≠ k.cache.clWords - k.cache.accessWords := hne
    have hlt : n + 1 < j := by
      by_contra hge
      have hmul : j * k.cache.accessWords ≤ (n + 1) * k.cache.accessWords :=
        Nat.mul_le_mul_right _ (Nat.le_of_not_lt hge)
      rw [Nat.add_mul, Nat.one_mul, ← hn, Nat.mul_comm j, ← hj] at hmul
      omega
    have hmul : (n + 1 + 1) * k.cache.accessWords ≤ j * k.cache.accessWords :=
      Nat.mul_le_mul_right _ hlt
    rw [Nat.add_mul (n + 1), Nat.add_mul n, Nat.one_mul, ← hn, Nat.mul_comm j, ← hj] at hmul
    rw [hc']
    exact hmul
  · exact absurd (hd.symm.trans hw) (by decide)
  · exact absurd (hd.symm.trans hw) (by decide)

/-- The directory is written alone after a line that is written in one cycle. -/
theorem dir_step (hw : (s.step i).unit.miss.refillFsmQ = .writeDir) :
    k.cache.clWords = k.cache.accessWords := by
  rw [step_fsm] at hw
  have hle := Nat.le_of_dvd k.cache.clWords_pos k.cache.accessWords_dvd
  rcases MissHandler.refillComb_cases s.unit.view i.miss with
    ⟨-, -, hd⟩ | ⟨-, -, -, -, hd⟩ | ⟨-, -, -, -, hd, -⟩ | ⟨-, -, -, hd, -⟩ |
    ⟨-, -, h0, -, -⟩ | ⟨-, -, hd⟩
  · exact absurd (hd.symm.trans hw) (by decide)
  · exact absurd (hd.symm.trans hw) (by decide)
  · exact absurd (hd.symm.trans hw) (by decide)
  · exact absurd (hd.symm.trans hw) (by decide)
  · have h0' : k.cache.clWords - k.cache.accessWords = 0 := h0
    omega
  · exact absurd (hd.symm.trans hw) (by decide)

theorem Inv.step (h : s.Inv) (hf : s.Framed i) : (s.step i).Inv where
  metas := h.metas_step
  wf := h.wf.step fun hw hl => h.part_last hf hw hl
  content := h.content_step hf
  whole := h.whole_step hf
  cur := h.cur_step hf
  part := h.part_step hf
  busy := h.busy_step
  cnt := h.cnt_step
  dir := dir_step
  buf := Fifo.length_step_le h.buf

/-! ## Blocking -/

/-- The buffers do not block and the FSM reads what it should. -/
structure Safe (s : Refilling k) : Prop where
  /-- The data buffer that refuses a beat is being read or will be. -/
  live : ¬ (s.unit.path.dataWok = false ∧ s.unit.path.metaFifo = [] ∧
    s.unit.miss.refillFsmQ = .idle)
  rok : s.unit.dataR = true → s.unit.path.data.rok = true
  /-- The data are those of the response whose fields the FSM reads, at the chunk at hand. -/
  own : s.unit.dataR = true → ∃ r rest, s.box.pend = r :: rest ∧ r.isInval = false ∧
    s.unit.path.metaFifo.head? = some r.toMeta ∧
    ∀ b < k.cache.accessBytes, s.unit.path.data.rdata k.resize b =
      r.line k (s.unit.miss.refillCntQ * k.cache.wordBytes + b)

/-- The slots of the data buffer hold a line. -/
def Fits (k : RefillCfg) : Prop :=
  k.cache.clWords ≤ k.cache.refillFifoDepth * max k.cache.memWords k.cache.accessWords

theorem slot_words (k : RefillCfg) :
    k.resize.wr * k.cache.memWords = max k.cache.memWords k.cache.accessWords := by
  show max 1 (k.cache.accessWords / k.cache.memWords) * k.cache.memWords = _
  have hm := k.cache.memWords_pos
  have ha := k.cache.accessWords_pos
  rcases k.resizable with h | h
  · have hle := Nat.le_of_dvd ha h
    rw [Nat.max_eq_right (Nat.div_pos hle hm), Nat.div_mul_cancel h, Nat.max_eq_right hle]
  · have hle := Nat.le_of_dvd hm h
    have hwr : k.cache.accessWords / k.cache.memWords ≤ 1 := Nat.div_le_of_le_mul (by omega)
    rw [Nat.max_eq_left hwr, Nat.max_eq_left hle, Nat.one_mul]

theorem beats_words (k : RefillCfg) : k.beats * k.cache.memWords = k.cache.clWords :=
  Nat.div_mul_cancel k.cache.memWords_dvd

/-- The beats of an unfinished response fit in the data buffer. -/
theorem Inv.dataWok (h : s.Inv) (hfit : Fits k) (hm : s.unit.path.metaFifo = []) :
    s.unit.path.dataWok = true := by
  apply Resize.wok_of_le h.wf
  have hpend : s.box.pend = [] := by
    have hmap := h.metas
    rw [hm] at hmap
    exact List.map_eq_nil_iff.1 hmap.symm
  have hlen : (s.unit.path.data.content k.resize).length = s.box.cur.length * k.memBytes := by
    have hc := h.content
    rw [hpend, List.flatMap_nil, List.drop_nil, List.nil_append] at hc
    rw [hc, ← List.flatMap_map, length_flatMap_units, List.length_map]
  have hwidth : k.resize.wrWidth = k.memBytes := rfl
  have hslot : k.resize.wr * k.memBytes =
      max k.cache.memWords k.cache.accessWords * k.cache.wordBytes := by
    rw [← slot_words, RefillCfg.memBytes, Nat.mul_assoc]
  have hnext : (s.box.cur.length + 1) * k.memBytes ≤ k.beats * k.memBytes :=
    Nat.mul_le_mul_right _ h.cur
  rw [Nat.add_mul, Nat.one_mul, Resp.beats_mul] at hnext
  have hroom : k.cache.clBytes ≤
      k.cache.refillFifoDepth * (max k.cache.memWords k.cache.accessWords * k.cache.wordBytes) := by
    rw [← Nat.mul_assoc]
    exact Nat.mul_le_mul_right _ hfit
  rw [hlen, hwidth, hslot]
  exact Nat.le_trans hnext hroom

theorem Inv.safe (h : s.Inv) (hfit : Fits k) : s.Safe := by
  have hwrite : s.unit.dataR = true → s.unit.miss.refillFsmQ = .write := of_decide_eq_true
  refine ⟨?_, fun hd => h.rok (hwrite hd), ?_⟩
  · rintro ⟨hwok, hm, -⟩
    rw [h.dataWok hfit hm] at hwok
    contradiction
  · intro hd
    obtain ⟨r, rest, hp, hv, hdata⟩ := h.rdata (hwrite hd)
    refine ⟨r, rest, hp, hv, ?_, hdata⟩
    rw [h.metas, hp]
    rfl

/-! ## A response that is longer than the buffer -/

/-- A beat that is not the last, while nothing is asked for. -/
def fillIn (k : RefillCfg) : RefillIn k where
  miss := {
    check := false
    checkSet := ⟨0, k.cache.sets_pos⟩
    alloc := false
    allocCs := false
    allocNline := ⟨0, ⟨0, k.cache.sets_pos⟩⟩
    allocTid := 0
    allocSid := 0
    allocWord := 0
    allocVictimWay := fun _ => false
    allocNeedRsp := false
    allocIsPrefetch := false
    allocWback := false
    allocDirty := false
    allocWdata := fun _ => 0
    allocBe := fun _ => false
    refillReqReady := false
    invalHit := false
    cfgPrefetchUpdtSelVictim := false
    memReqReady := false
    memResp := none }
  resp := some {
    rError := false
    rSet := ⟨0, k.cache.mshrSets_pos⟩
    rWay := ⟨0, k.cache.mshrWays_pos⟩
    rLast := false
    rData := fun _ => 0
    inval := false
    invalNline := ⟨0, ⟨0, k.cache.sets_pos⟩⟩ }

/-- The unfinished response of `n` beats, while the FSM waits. -/
structure Filled (s : Refilling k) (n : Nat) : Prop where
  inv : s.Inv
  cur : s.box.cur.length = n
  written : s.unit.path.data.written k.resize = n
  metas : s.unit.path.metaFifo = []
  idle : s.unit.miss.refillFsmQ = .idle

theorem Filled.step {n : Nat} (h : s.Filled n)
    (hn : n < k.cache.refillFifoDepth * k.resize.wr) (hb : n + 1 < k.beats) :
    s.Framed (fillIn k) ∧ (s.step (fillIn k)).Filled (n + 1) := by
  have hframed : s.Framed (fillIn k) := by
    intro y hy hv
    cases hy
    rw [h.cur]
    constructor
    · intro hl
      exact Bool.noConfusion hl
    · intro he
      omega
  have hle : s.unit.path.data.written k.resize ≤ k.resize.depth * k.resize.wr := by
    rw [h.written]
    exact Nat.le_of_lt hn
  have hwok : s.unit.path.data.wok k.resize = true := by
    rw [Resize.wok_iff_written h.inv.wf hle, h.written]
    exact hn
  have htaken : s.unit.path.taken (fillIn k).resp = (fillIn k).resp := by
    have hd : s.unit.path.dataWok = true := hwok
    simp [RespPath.taken, RespPath.ready, fillIn, hd]
  have hrok : s.unit.view.metaRok = false := by
    simp [MissHandler.metaRok, Refiller.view, h.metas]
  have hidle : s.unit.view.refillFsmQ = .idle := h.idle
  have hout : s.unit.view.refillComb (fillIn k).miss = s.unit.view.refillDefault := by
    simp [MissHandler.refillComb, MissHandler.refillIdle, hidle, hrok]
  have hmeta : (s.unit.out (fillIn k)).metaR = false := congrArg RefillOut.metaR hout
  refine ⟨hframed, h.inv.step hframed, ?_, ?_, ?_, ?_⟩
  · show (s.box.curNext (s.unit.path.taken (fillIn k).resp)).length = n + 1
    rw [htaken]
    simp [Inbox.curNext, fillIn, h.cur]
  · have hdr : s.unit.dataR = false := by simp [Refiller.dataR, h.idle]
    have hw : s.unit.path.dataW (fillIn k).resp = true := by simp [RespPath.dataW, fillIn]
    have hstep := Resize.written_step (l := false) (x := fun _ => (0 : Byte))
      (fun hl => Bool.noConfusion hl) hw hwok
    rw [h.written] at hstep
    have hq : (s.step (fillIn k)).unit.path.data =
        s.unit.path.data.step k.resize (s.unit.path.dataW (fillIn k).resp) false (fun _ => 0)
          s.unit.dataR := rfl
    rw [hq, hdr, hstep]
  · have hq : (s.step (fillIn k)).unit.path.metaFifo =
        Fifo.step k.cache.refillFifoDepth false s.unit.path.metaFifo none
          (s.unit.out (fillIn k)).metaR := by
      have hno : s.unit.path.metaW (fillIn k).resp = false := by simp [RespPath.metaW, fillIn]
      show Fifo.step _ _ _ (if s.unit.path.metaW (fillIn k).resp then _ else none) _ = _
      rw [hno]
      rfl
    rw [hq, h.metas, Fifo.step_nil_none]
  · exact (congrArg RefillOut.fsmD hout).trans hidle

theorem start_filled (u : Refiller k) : (start u).Filled 0 :=
  ⟨start_inv u, rfl, by simp [start, Refiller.reset, Resize.empty, Resize.written], rfl, rfl⟩

/-- The buffer can be filled with the beats of a response. -/
theorem filled_run (u : Refiller k) :
    ∀ n, n ≤ k.cache.refillFifoDepth * k.resize.wr → n < k.beats →
      Along step Framed (start u) (List.replicate n (fillIn k)) ∧
        (run step (start u) (List.replicate n (fillIn k))).Filled n := by
  have hgo : ∀ n j (s : Refilling k), s.Filled j →
      n + j ≤ k.cache.refillFifoDepth * k.resize.wr → n + j < k.beats →
        Along step Framed s (List.replicate n (fillIn k)) ∧
          (run step s (List.replicate n (fillIn k))).Filled (n + j) := by
    intro n
    induction n with
    | zero =>
      intro j s hs _ _
      rw [Nat.zero_add]
      exact ⟨trivial, hs⟩
    | succ n ih =>
      intro j s hs hle hlt
      obtain ⟨hf, hnext⟩ := hs.step (by omega) (by omega)
      obtain ⟨hal, hrun⟩ := ih (j + 1) _ hnext (by omega) (by omega)
      refine ⟨⟨hf, hal⟩, ?_⟩
      rw [show n + 1 + j = n + (j + 1) by omega]
      exact hrun
  intro n hle hlt
  exact hgo n 0 _ (start_filled u) hle hlt

/-- A response that fills the buffer before its last beat blocks it. -/
theorem Filled.blocks (h : s.Filled (k.cache.refillFifoDepth * k.resize.wr)) : ¬ s.Safe := by
  have hwritten := h.written
  have hno : s.unit.path.dataWok = false := by
    by_contra hw
    have hroom := (Resize.wok_iff_written h.inv.wf (Nat.le_of_eq hwritten)).1
      (eq_true_of_ne_false hw)
    rw [hwritten] at hroom
    exact absurd hroom (Nat.lt_irrefl _)
  intro hsafe
  exact hsafe.live ⟨hno, h.metas, h.idle⟩

/-- **Blocking.** In every run in which the memory sends whole responses, whatever the order of the
beats and of the invalidations, the buffers do not block and the FSM reads the data of the response
that it processes, exactly when the slots of the data buffer hold a line. -/
theorem safe_iff (u : Refiller k) :
    (∀ is, Along step Framed (start u) is → (run step (start u) is).Safe) ↔ Fits k := by
  constructor
  · intro hsafe
    by_contra hfit
    have hm := k.cache.memWords_pos
    have hlt : k.cache.refillFifoDepth * k.resize.wr < k.beats := by
      by_contra hge
      apply hfit
      have hmul : k.beats * k.cache.memWords ≤
          k.cache.refillFifoDepth * k.resize.wr * k.cache.memWords :=
        Nat.mul_le_mul_right _ (Nat.le_of_not_lt hge)
      rw [beats_words, Nat.mul_assoc, slot_words] at hmul
      exact hmul
    obtain ⟨hal, hfull⟩ := filled_run u _ (Nat.le_refl _) hlt
    exact hfull.blocks (hsafe _ hal)
  · intro hfit is hal
    have hinv : (run step (start u) is).Inv :=
      hal.invariant (start_inv u) fun s i hs hf => hs.step hf
    exact hinv.safe hfit

/-! ## A line of eight words with two slots of two words -/

def longLineCfg : RefillCfg where
  cache := { Cfg.small true true true false (Cfg.policy_wt true) (Cfg.latency_noEcc true) with
    clWords := 8
    clWords_gt := by decide
    accessWords_dvd := by decide
    wbufWords_dvd := by decide
    memWords_dvd := by decide }
  resizable := .inl (by decide)

def longLine : Refiller longLineCfg := ⟨Cache.blankMiss _, ⟨[], Resize.empty⟩⟩

/-- The first two beats of four fill the buffer, and the third one is never taken. -/
theorem longLine_blocks :
    Along step Framed (start longLine) (List.replicate 2 (fillIn longLineCfg)) ∧
      ¬ (run step (start longLine) (List.replicate 2 (fillIn longLineCfg))).Safe := by
  obtain ⟨hal, hfull⟩ := filled_run longLine 2 (by decide) (by decide)
  exact ⟨hal, hfull.blocks⟩

end Refilling

end Hpdcache
