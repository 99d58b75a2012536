import Hpdcache.DataDownsize
import Hpdcache.FifoReg

/-!
# The width-converting buffer

`hpdcache_data_resize` stands between a writer and a reader of words of other widths. The widths
choose one of three circuits: the upsizer, the downsizer, and the buffer `hpdcache_fifo_reg` when
they are the same. Only the upsizer takes the last marks of the writer.

* `DataResize.holds_step` — a cycle delivers the word that is read.
* `DataResize.preserves` — the stream that is read is the one that is written.
-/

namespace Hpdcache

open Hw

variable {ω : Type*} {depth : Nat}

/-- The circuits. -/
inductive ResizeKind (depth : Nat)
  | upsize (words : Nat) (hw : 1 < words) (hd : 0 < depth)
  | downsize (words : Nat) (hw : 1 < words) (hd : 0 < depth)
  | noresize

/-- The parameters, as the circuits assert them. -/
structure DataResizeCfg where
  wrWidth : Nat
  rdWidth : Nat
  depth : Nat
  wrWidth_pos : 0 < wrWidth
  rdWidth_pos : 0 < rdWidth
  upsize_ok : wrWidth < rdWidth → 0 < depth ∧ wrWidth ∣ rdWidth
  downsize_ok : rdWidth < wrWidth → 0 < depth ∧ rdWidth ∣ wrWidth

theorem one_lt_div {a b : Nat} (ha : 0 < a) (hlt : a < b) (hdvd : a ∣ b) : 1 < b / a := by
  obtain ⟨q, rfl⟩ := hdvd
  rw [Nat.mul_div_cancel_left q ha]
  exact (Nat.lt_mul_iff_one_lt_right ha).1 hlt

/-- The circuit that the widths choose. -/
def DataResizeCfg.kind (c : DataResizeCfg) : ResizeKind c.depth :=
  if h : c.wrWidth < c.rdWidth then
    .upsize (c.rdWidth / c.wrWidth) (one_lt_div c.wrWidth_pos h (c.upsize_ok h).2) (c.upsize_ok h).1
  else if h : c.rdWidth < c.wrWidth then
    .downsize (c.wrWidth / c.rdWidth) (one_lt_div c.rdWidth_pos h (c.downsize_ok h).2)
      (c.downsize_ok h).1
  else .noresize

namespace ResizeKind

def Regs (ω : Type*) : ResizeKind depth → Type _
  | .upsize words _ _ => ResizeRegs ω depth words
  | .downsize words _ _ => ResizeRegs ω depth words
  | .noresize => FifoReg ω depth

def WData (ω : Type*) : ResizeKind depth → Type _
  | .upsize _ _ _ => ω
  | .downsize words _ _ => Fin words → ω
  | .noresize => ω

def RData (ω : Type*) : ResizeKind depth → Type _
  | .upsize words _ _ => Fin words → ω
  | .downsize _ _ _ => ω
  | .noresize => ω

/-- The units of a word that is read. -/
def rdWords : ResizeKind depth → Nat
  | .upsize words _ _ => words
  | .downsize _ _ _ => 1
  | .noresize => 1

end ResizeKind

def ResizeIn.fifo (i : ResizeIn ω) : FifoIn ω := ⟨i.w, i.wdata, i.r⟩

namespace DataResize

open ResizeKind

def reset (zero : ω) : (k : ResizeKind depth) → Regs ω k → Regs ω k
  | .upsize _ _ hd, _ => ResizeRegs.reset hd zero
  | .downsize _ _ hd, _ => ResizeRegs.reset hd zero
  | .noresize, s => FifoReg.reset depth s

def wok : (k : ResizeKind depth) → Regs ω k → ResizeIn (WData ω k) → Bool
  | .upsize _ _ _, s, _ => ResizeRegs.wok s
  | .downsize _ _ _, s, _ => ResizeRegs.wok s
  | .noresize, s, i => FifoReg.wok false depth s (ResizeIn.fifo i)

def rok : (k : ResizeKind depth) → Regs ω k → ResizeIn (WData ω k) → Bool
  | .upsize _ _ _, s, _ => ResizeRegs.rok s
  | .downsize _ _ _, s, _ => ResizeRegs.rok s
  | .noresize, s, i => FifoReg.rok false depth s (ResizeIn.fifo i)

def rdata : (k : ResizeKind depth) → Regs ω k → ResizeIn (WData ω k) → RData ω k
  | .upsize _ _ _, s, _ => DataUpsize.rdata s
  | .downsize _ hw _, s, _ => DataDownsize.rdata s (Nat.lt_of_succ_lt hw)
  | .noresize, s, i => FifoReg.rdata false depth s (ResizeIn.fifo i)

def rlast : (k : ResizeKind depth) → Regs ω k → Bool
  | .upsize _ _ _, _ => true
  | .downsize _ _ _, s => DataDownsize.rlast s
  | .noresize, _ => true

def step : (k : ResizeKind depth) → Regs ω k → ResizeIn (WData ω k) → Regs ω k
  | .upsize _ _ _, s, i => DataUpsize.step s i
  | .downsize _ _ _, s, i => DataDownsize.step s i
  | .noresize, s, i => FifoReg.step false depth s (ResizeIn.fifo i)

/-- The units of a word that is written, with the mark of the word where the circuit takes it. -/
def wunits : (k : ResizeKind depth) → ResizeIn (WData ω k) → List (ω × Bool)
  | .upsize _ _ _, i => [(i.wdata, i.wlast)]
  | .downsize _ _ _, i => (List.ofFn i.wdata).map fun u => (u, false)
  | .noresize, i => [(i.wdata, false)]

/-- The units of a word that is read. -/
def lanes : (k : ResizeKind depth) → RData ω k → List ω
  | .upsize _ _ _, r => List.ofFn r
  | .downsize _ _ _, r => [r]
  | .noresize, r => [r]

variable (k : ResizeKind depth) (s : Regs ω k) (i : ResizeIn (WData ω k))

/-- The units that enter in a cycle. -/
def written : List (ω × Bool) := if i.w && wok k s i then wunits k i else []

/-- The word that leaves in a cycle. -/
def read : List (RData ω k) := if i.r && rok k s i then [rdata k s i] else []

/-- The counters are in their bounds, and a cycle adds to them and takes from them as in the
naturals. -/
def Counts : (k : ResizeKind depth) → Regs ω k → ResizeIn (WData ω k) → Prop
  | .upsize words _ _, s, i =>
    s.usedQ.toNat ≤ depth ∧ (∀ j, (s.wordsQ j).toNat < words) ∧
      (DataUpsize.step s i).usedQ.toNat + (DataUpsize.usedDec s i).toNat =
        s.usedQ.toNat + (DataUpsize.usedInc s i).toNat ∧
      ∀ j, ((DataUpsize.step s i).wordsQ j).toNat =
        if DataUpsize.usedDec s i = true ∧ j = s.rdptrQ then 0
        else (s.wordsQ j).toNat + (DataUpsize.wordsInc s i && decide (j = s.wrptrQ)).toNat
  | .downsize words _ _, s, i =>
    s.usedQ.toNat ≤ depth ∧ (∀ j, (s.wordsQ j).toNat < words) ∧
      (DataDownsize.step s i).usedQ.toNat + (DataDownsize.usedDec s i).toNat =
        s.usedQ.toNat + (DataDownsize.wordsSet s i).toNat ∧
      ∀ j, ((DataDownsize.step s i).wordsQ j).toNat +
          (DataDownsize.wordsDec s i && decide (j = s.rdptrQ)).toNat =
        if DataDownsize.wordsSet s i = true ∧ j = s.wrptrQ then words - 1 else (s.wordsQ j).toNat
  | .noresize, s, i =>
    (FifoReg.contents depth s).length ≤ depth ∧
      (FifoReg.contents depth (FifoReg.step false depth s (ResizeIn.fifo i))).length +
          (FifoReg.read false depth s (ResizeIn.fifo i)).length =
        (FifoReg.contents depth s).length +
          (FifoReg.written false depth s (ResizeIn.fifo i)).length

/-- The groups that a circuit holds: those of one unit are a queue. -/
def Holds : (k : ResizeKind depth) → Regs ω k → Groups ω → Prop
  | .upsize _ _ _, s, g => DataUpsize.Holds s g
  | .downsize _ _ _, s, g =>
    ResizeRegs.WF s ∧ g = ⟨(DataDownsize.contents s).map fun x => [x], []⟩
  | .noresize, s, g =>
    FifoReg.WF depth s ∧ (FifoReg.contents depth s).length ≤ depth ∧
      g = ⟨(FifoReg.contents depth s).map fun x => [x], []⟩

variable {k s i}

theorem length_lanes (r : RData ω k) : (lanes k r).length = k.rdWords := by
  cases k with
  | upsize => exact List.length_ofFn
  | downsize => rfl
  | noresize => rfl

theorem holds_reset (zero : ω) : Holds k (reset zero k s) Groups.nil := by
  cases k with
  | upsize words hw hd => exact DataUpsize.holds_reset hd (Nat.lt_of_succ_lt hw) zero
  | downsize words hw hd => exact ⟨ResizeRegs.wf_reset hd (Nat.lt_of_succ_lt hw) zero, rfl⟩
  | noresize =>
    have hnil : FifoReg.contents depth (FifoReg.reset depth s) = [] := FifoReg.contents_reset
    refine ⟨FifoReg.wf_reset, ?_, ?_⟩
    · show (FifoReg.contents depth (FifoReg.reset depth s)).length ≤ depth
      rw [hnil]
      exact Nat.zero_le _
    · show Groups.nil = ⟨(FifoReg.contents depth (FifoReg.reset depth s)).map fun x => [x], []⟩
      rw [hnil]
      rfl

/-- A cycle delivers the word that is read, and takes in the units that are written. -/
theorem holds_step (s : Regs ω k) (i : ResizeIn (WData ω k)) (g : Groups ω) (h : Holds k s g) :
    ∃ g', Holds k (step k s i) g' ∧
      Delivers k.rdWords (lanes k) g (written k s i) (read k s i) g' := by
  cases k with
  | upsize words hw hd => exact DataUpsize.Holds.step h i
  | downsize words hw hd =>
    obtain ⟨hwf, rfl⟩ := h
    obtain ⟨hwf', hbal⟩ := DataDownsize.balance (i := i) (Nat.lt_of_succ_lt hw) hwf
    refine ⟨_, ⟨hwf', rfl⟩, delivers_one ?_⟩
    have hfst : (written (.downsize words hw hd) s i).map Prod.fst = DataDownsize.written s i := by
      show (if DataDownsize.wordsSet s i then (List.ofFn i.wdata).map fun u => (u, false)
        else []).map Prod.fst = _
      unfold DataDownsize.written
      split_ifs
      · rw [List.map_map]
        exact List.map_id _
      · rfl
    rw [hfst]
    exact hbal
  | noresize =>
    obtain ⟨hwf, hle, rfl⟩ := h
    have hbal := @FifoReg.balance ω false depth s (ResizeIn.fifo i) hwf
    refine ⟨_, ⟨hwf.step, ?_, rfl⟩, delivers_one ?_⟩
    · show (FifoReg.contents depth (FifoReg.step false depth s (ResizeIn.fifo i))).length ≤ depth
      rw [FifoReg.contents_step hwf]
      exact Fifo.length_step_le hle
    · have hfst : (written .noresize s i).map Prod.fst =
          FifoReg.written false depth s (ResizeIn.fifo i) := by
        show (if i.w && FifoReg.wok false depth s (ResizeIn.fifo i) then [(i.wdata, false)]
          else []).map Prod.fst = if i.w && FifoReg.wok false depth s (ResizeIn.fifo i)
            then [i.wdata] else []
        split_ifs <;> rfl
      rw [hfst]
      exact hbal

theorem counts_of_holds {g : Groups ω} (h : Holds k s g) : Counts k s i := by
  cases k with
  | upsize words hw hd => exact ⟨h.wf.used, h.wf.words, DataUpsize.counts h.wf⟩
  | downsize words hw hd => exact ⟨h.1.used, h.1.words, DataDownsize.counts h.1⟩
  | noresize =>
    obtain ⟨hwf, hle, -⟩ := h
    have hbal := congrArg List.length (@FifoReg.balance ω false depth s (ResizeIn.fifo i) hwf)
    rw [List.length_append, List.length_append] at hbal
    exact ⟨hle, by rw [Nat.add_comm]; exact hbal⟩

/-- There is a word to read when a group is closed. -/
theorem rok_iff {g : Groups ω} (h : Holds k s g) (hd : 0 < depth) :
    rok k s i = true ↔ g.closed ≠ [] := by
  cases k with
  | upsize words hw hd => exact h.rok_iff
  | downsize words hw hd =>
    obtain ⟨hwf, rfl⟩ := h
    rw [ne_eq, List.map_eq_nil_iff]
    exact DataDownsize.rok_iff (Nat.lt_of_succ_lt hw) hwf
  | noresize =>
    obtain ⟨hwf, -, rfl⟩ := h
    rw [ne_eq, List.map_eq_nil_iff]
    show FifoReg.rok false depth s (ResizeIn.fifo i) = true ↔ _
    rw [FifoReg.rok_eq hwf, Fifo.rok_iff]
    simp [Nat.ne_of_gt hd]

/-- **The stream is preserved.** For all widths and every depth, after any attempts to write and to
read, cut the units of the words written in groups of a word that is read, a word marked as the last
closing its group. The words read carry the first of the closed groups, in their order, and the
others wait: there is a word to read as long as there is one. Without marks the words read are the
beginning of the stream. The counters do not wrap. -/
theorem preserves (c : DataResizeCfg) (zero : ω) (s : Regs ω c.kind)
    (is : List (ResizeIn (WData ω c.kind))) :
    let t := run (step c.kind) (reset zero c.kind s) is
    let us := trace (step c.kind) (written c.kind) (reset zero c.kind s) is
    let rs := trace (step c.kind) (read c.kind) (reset zero c.kind s) is
    ∃ gone held part,
      Groups.nil.cut c.kind.rdWords us = ⟨gone ++ held, part⟩ ∧
      List.Forall₂ (Carries (lanes c.kind)) rs gone ∧
      gone.flatten ++ held.flatten ++ part = us.map Prod.fst ∧
      ((∀ u ∈ us, u.2 = false) →
        rs.flatMap (lanes c.kind) ++ (held.flatten ++ part) = us.map Prod.fst) ∧
      (0 < c.depth → ∀ i, rok c.kind t i = true ↔ held ≠ []) ∧
      ∀ i, Counts c.kind t i := by
  intro t us rs
  obtain ⟨g, hg, hd⟩ := delivers_run holds_step (holds_reset (s := s) zero) is
  have hfull : (∀ u ∈ us, u.2 = false) → _ := fun hu =>
    hd.flatten_lanes hu nofun fun r _ => length_lanes r
  obtain ⟨gone, hcut, hall⟩ := hd
  have hunits : (Groups.nil.cut c.kind.rdWords us).units = us.map Prod.fst := Groups.units_cut
  rw [hcut] at hunits
  refine ⟨gone, g.closed, g.part, hcut, hall, ?_, ?_, ?_, ?_⟩
  · rw [← List.flatten_append]
    exact hunits
  · exact hfull
  · intro hdepth i
    exact rok_iff hg hdepth
  · intro i
    exact counts_of_holds hg

/-! ## Lines of the memory channel -/

/-- From a channel of 64 bits to accesses of 128. -/
def upsizeCfg : DataResizeCfg where
  wrWidth := 64
  rdWidth := 128
  depth := 2
  wrWidth_pos := Nat.succ_pos _
  rdWidth_pos := Nat.succ_pos _
  upsize_ok _ := ⟨Nat.two_pos, 2, rfl⟩
  downsize_ok h := absurd h (Nat.not_lt.2 (Nat.le_add_right 64 64))

/-- From accesses of 128 bits to a channel of 64. -/
def downsizeCfg : DataResizeCfg where
  wrWidth := 128
  rdWidth := 64
  depth := 2
  wrWidth_pos := Nat.succ_pos _
  rdWidth_pos := Nat.succ_pos _
  upsize_ok h := absurd h (Nat.not_lt.2 (Nat.le_add_right 64 64))
  downsize_ok _ := ⟨Nat.two_pos, 2, rfl⟩

/-- Three units, the last one marked, and then two reads. -/
def threeUnits : List (ResizeIn (WData Nat upsizeCfg.kind)) :=
  [⟨true, (1 : Nat), false, false⟩, ⟨true, (2 : Nat), false, false⟩, ⟨true, (3 : Nat), true, false⟩,
    ⟨false, (0 : Nat), false, true⟩, ⟨false, (0 : Nat), false, true⟩]

/-- Two words of two units, the second one written while the first one is read. -/
def twoWords : List (ResizeIn (WData Nat downsizeCfg.kind)) :=
  [⟨true, (fun j => 1 + j.val : Fin 2 → Nat), false, true⟩,
    ⟨true, (fun j => 3 + j.val : Fin 2 → Nat), false, true⟩,
    ⟨false, (fun _ => 0 : Fin 2 → Nat), false, true⟩,
    ⟨false, (fun _ => 0 : Fin 2 → Nat), false, true⟩]

def upsizeStart : Regs Nat upsizeCfg.kind := ResizeRegs.reset Nat.two_pos 0

def downsizeStart : Regs Nat downsizeCfg.kind := ResizeRegs.reset Nat.two_pos 0

/-- The upsizer gives two words, of which the second carries one unit, and the downsizer gives the
units of its words one by one. -/
theorem preserves_packets :
    (let us := trace (step upsizeCfg.kind) (written upsizeCfg.kind) upsizeStart threeUnits
     let rs := trace (step upsizeCfg.kind) (read upsizeCfg.kind) upsizeStart threeUnits
     us = [(1, false), (2, false), (3, true)] ∧ rs.length = 2 ∧
      ∃ gone held part, Groups.nil.cut 2 us = ⟨gone ++ held, part⟩ ∧
        List.Forall₂ (Carries (lanes upsizeCfg.kind)) rs gone ∧
        gone.flatten ++ held.flatten ++ part = us.map Prod.fst) ∧
    (let us := trace (step downsizeCfg.kind) (written downsizeCfg.kind) downsizeStart twoWords
     let rs := trace (step downsizeCfg.kind) (read downsizeCfg.kind) downsizeStart twoWords
     rs.flatMap (lanes downsizeCfg.kind) = [1, 2, 3] ∧
      ∃ (held : List (List Nat)) (part : List Nat),
        rs.flatMap (lanes downsizeCfg.kind) ++ (held.flatten ++ part) = us.map Prod.fst) := by
  constructor
  · intro us rs
    obtain ⟨gone, held, part, hcut, hall, hflat, -⟩ := preserves upsizeCfg 0 upsizeStart threeUnits
    exact ⟨by decide, by decide, gone, held, part, hcut, hall, hflat⟩
  · intro us rs
    obtain ⟨_, held, part, -, -, -, hfull, -⟩ := preserves downsizeCfg 0 downsizeStart twoWords
    exact ⟨by decide, held, part, hfull (by decide)⟩

end DataResize

end Hpdcache
