import Hpdcache.Hwpf

/-!
# The accesses that the prefetcher snoops

What triggers an engine of `hwpf_stride_wrapper`: an access of a snooped port to the line that the
engine watches. The tag and the abort of a virtually indexed access come in the cycle after its
offset, which a register keeps.

**The line.** The wrapper puts the tag above the whole offset, and compares the low bits of that
address, as many as a line has.

**The register.** It is loaded by the physically indexed accesses, and not by the virtually indexed
ones. In a cycle without a physically indexed access the last one of them is seen again.

* `Watch.Inv.step` — the register has the last physically indexed request.
* `Watch.exact_of_spared` — a match is an access to the line, but for these two.
* `Watch.snoop_run` — it is so in a run whose cycles are all spared.
* `Watch.not_match_of_virtual` — ports that are virtually indexed never make a match.
-/

namespace Hpdcache

open Hw

variable {h : HwpfCfg}

/-- The line of the address of a tag and an offset. -/
def HwpfCfg.line (h : HwpfCfg) (tag offset : Nat) : BitVec h.nlineWidth :=
  BitVec.ofNat _ (tag * 2 ^ h.setWidth + offset / 2 ^ h.clOffsetWidth)

/-- The low bits of the address of a tag and an offset. -/
def HwpfCfg.lowBits (h : HwpfCfg) (tag offset : Nat) : BitVec h.nlineWidth :=
  BitVec.ofNat _ (tag * 2 ^ (h.setWidth + h.clOffsetWidth) + offset)

/-- They are the line when a line has one byte. -/
theorem HwpfCfg.lowBits_eq (hcl : h.clOffsetWidth = 0) (tag offset : Nat) :
    h.lowBits tag offset = h.line tag offset := by
  rw [lowBits, line, hcl, Nat.add_zero, Nat.pow_zero, Nat.div_one]

/-- The wrapper with the inputs of the cycles before, the last one first. -/
structure Watch (h : HwpfCfg) where
  hwpf : Hwpf h
  past : List (HwpfIn h)

namespace Watch

def reset (f : Hwpf h) : Watch h := ⟨f.reset, []⟩

def step (w : Watch h) (i : HwpfIn h) : Watch h := ⟨w.hwpf.step i, i :: w.past⟩

variable (w : Watch h) (i : HwpfIn h)

/-- The port carries an access to the line `n`: its request is in this cycle, or, when it is
virtually indexed, in the one before. -/
def Carries (p : Fin h.snoopPorts) (n : BitVec h.nlineWidth) : Prop :=
  (i.snoop p).abort = false ∧
    ((i.snoop p).physIndexed = true ∧ (i.snoop p).valid = true ∧
        h.line (i.snoop p).addrTag (i.snoop p).addrOffset = n ∨
      ∃ j ∈ w.past.head?, (j.snoop p).physIndexed = false ∧ (j.snoop p).valid = true ∧
        h.line (i.snoop p).addrTag (j.snoop p).addrOffset = n)

/-- Every engine matches exactly when a port carries an access to its line. -/
def Exact : Prop :=
  ∀ k, w.hwpf.snoopMatch i k = true ↔ ∃ p, w.Carries i p (w.hwpf.engine k).baseNline

/-- What the port had in the last cycle in which it was physically indexed. -/
def lastPhys (p : Fin h.snoopPorts) : Option SnoopPort :=
  (w.past.map fun j => j.snoop p).find? fun r => r.physIndexed

/-- The port is spared for the line `n`. The low bits of a physically indexed access are those of
the line just when it is to the line; without one, the last one before has other low bits under the
tag of this cycle; and no virtually indexed access to the line ends. -/
def SparedPort (p : Fin h.snoopPorts) (n : BitVec h.nlineWidth) : Prop :=
  (i.snoop p).abort = false →
    ((i.snoop p).physIndexed = true → (i.snoop p).valid = true →
      (h.lowBits (i.snoop p).addrTag (i.snoop p).addrOffset = n ↔
        h.line (i.snoop p).addrTag (i.snoop p).addrOffset = n)) ∧
    ((i.snoop p).physIndexed = false → ∀ r ∈ w.lastPhys p, r.valid = true →
      h.lowBits (i.snoop p).addrTag r.addrOffset ≠ n) ∧
    ∀ j ∈ w.past.head?, (j.snoop p).physIndexed = false → (j.snoop p).valid = true →
      h.line (i.snoop p).addrTag (j.snoop p).addrOffset ≠ n

/-- Every port is spared for the line of every engine. -/
def Spared : Prop := ∀ k p, w.SparedPort i p (w.hwpf.engine k).baseNline

instance (p : Fin h.snoopPorts) (n : BitVec h.nlineWidth) : Decidable (w.Carries i p n) :=
  inferInstanceAs (Decidable (_ ∧ (_ ∨ _)))

instance (p : Fin h.snoopPorts) (n : BitVec h.nlineWidth) : Decidable (w.SparedPort i p n) :=
  inferInstanceAs (Decidable (_ → _ ∧ _ ∧ _))

instance : Decidable (w.Spared i) := inferInstanceAs (Decidable (∀ _ _, _))

/-- The register of a port has its last physically indexed request. -/
structure Inv : Prop where
  valid : ∀ p, w.hwpf.snoopValidQ p = (w.lastPhys p).elim false SnoopPort.valid
  offset : ∀ p, w.hwpf.snoopOffsetQ p = (w.lastPhys p).elim 0 SnoopPort.addrOffset

variable {w i}

theorem inv_reset (f : Hwpf h) : (reset f).Inv := ⟨fun _ => rfl, fun _ => rfl⟩

theorem lastPhys_step (p : Fin h.snoopPorts) : (w.step i).lastPhys p =
    if (i.snoop p).physIndexed then some (i.snoop p) else w.lastPhys p := by
  unfold lastPhys step
  rw [List.map_cons, List.find?_cons]
  cases (i.snoop p).physIndexed <;> rfl

theorem Inv.step (hw : w.Inv) : (w.step i).Inv := by
  constructor
  · intro p
    show (if (i.snoop p).physIndexed then (i.snoop p).valid else w.hwpf.snoopValidQ p) = _
    rw [lastPhys_step]
    cases (i.snoop p).physIndexed with
    | true => rfl
    | false => exact hw.valid p
  · intro p
    show (if (i.snoop p).physIndexed then (i.snoop p).addrOffset else w.hwpf.snoopOffsetQ p) = _
    rw [lastPhys_step]
    cases (i.snoop p).physIndexed with
    | true => rfl
    | false => exact hw.offset p

/-- What the wrapper sees on a port. -/
theorem Inv.snoopMatch_iff (hw : w.Inv) {k : Fin h.engines} : w.hwpf.snoopMatch i k = true ↔
    ∃ p, (i.snoop p).abort = false ∧
      if (i.snoop p).physIndexed then
        (i.snoop p).valid = true ∧
          h.lowBits (i.snoop p).addrTag (i.snoop p).addrOffset = (w.hwpf.engine k).baseNline
      else
        ∃ r ∈ w.lastPhys p, r.valid = true ∧
          h.lowBits (i.snoop p).addrTag r.addrOffset = (w.hwpf.engine k).baseNline := by
  rw [Hwpf.snoopMatch, decide_eq_true_eq]
  apply exists_congr
  intro p
  have hvalid := hw.valid p
  have hoffset := hw.offset p
  unfold Hwpf.snoopNline HwpfCfg.lowBits
  cases (i.snoop p).physIndexed with
  | true =>
    simp only [if_true]
    exact ⟨fun hm => ⟨hm.2.1, hm.1, hm.2.2.symm⟩, fun hm => ⟨hm.2.1, hm.1, hm.2.2.symm⟩⟩
  | false =>
    simp only [Bool.false_eq_true, if_false, hvalid, hoffset]
    cases w.lastPhys p with
    | none => simp
    | some r =>
      simp only [Option.elim_some, Option.mem_def, Option.some.injEq, exists_eq_left']
      exact ⟨fun hm => ⟨hm.2.1, hm.1, hm.2.2.symm⟩, fun hm => ⟨hm.2.1, hm.1, hm.2.2.symm⟩⟩

/-- A match in a cycle that is spared is an access to the line. -/
theorem Inv.exact_of_spared (hw : w.Inv) (hs : w.Spared i) : w.Exact i := by
  intro k
  rw [hw.snoopMatch_iff]
  apply exists_congr
  intro p
  unfold Carries
  apply and_congr_right
  intro ha
  obtain ⟨hphys, hstale, hvirt⟩ := hs k p ha
  have hnone : ¬ ∃ j ∈ w.past.head?, (j.snoop p).physIndexed = false ∧ (j.snoop p).valid = true ∧
      h.line (i.snoop p).addrTag (j.snoop p).addrOffset = (w.hwpf.engine k).baseNline := by
    rintro ⟨j, hj, hp, hv, hn⟩
    exact hvirt j hj hp hv hn
  rw [or_iff_left hnone]
  cases hp : (i.snoop p).physIndexed with
  | true =>
    simp only [if_true, true_and]
    exact and_congr_right fun hv => hphys hp hv
  | false =>
    simp only [Bool.false_eq_true, if_false, false_and, iff_false]
    rintro ⟨r, hr, hv, hn⟩
    exact hstale hp r hr hv hn

/-! ## Runs -/

section
variable {f : Hwpf h} {is : List (HwpfIn h)}

/-- Physically indexed accesses to lines of one byte are spared. -/
theorem spared_of_phys (hcl : h.clOffsetWidth = 0) (hp : ∀ p, (i.snoop p).physIndexed = true)
    (hpast : ∀ j ∈ w.past.head?, ∀ p, (j.snoop p).physIndexed = true) : w.Spared i := by
  intro k p _
  refine ⟨fun _ _ => by rw [h.lowBits_eq hcl], ?_, ?_⟩
  · intro hf
    rw [hp p] at hf
    contradiction
  · intro j hj hf
    rw [hpast j hj p] at hf
    contradiction

/-- Ports that have been virtually indexed since reset make no match, whatever they carry. -/
theorem not_match_of_virtual (hv : ∀ j ∈ is, ∀ p, (j.snoop p).physIndexed = false) :
    Along step (fun w i => ∀ k, w.hwpf.snoopMatch i k = false) (reset f) is := by
  have hvirt : Along step (fun _ i => ∀ p, (i.snoop p).physIndexed = false) (reset f) is :=
    along_of_mem hv
  have hstart : (reset f).Inv ∧ ∀ p, (reset f).lastPhys p = none := ⟨inv_reset f, fun _ => rfl⟩
  have hstep : ∀ (w : Watch h) (i : HwpfIn h), (w.Inv ∧ ∀ p, w.lastPhys p = none) →
      (∀ p, (i.snoop p).physIndexed = false) →
        (w.step i).Inv ∧ ∀ p, (w.step i).lastPhys p = none := by
    intro w i hw hi
    refine ⟨hw.1.step, fun p => ?_⟩
    rw [lastPhys_step, hi p]
    exact hw.2 p
  refine (hvirt.strengthen hstart hstep).mono fun w i hw k => ?_
  rw [← Bool.not_eq_true, hw.1.1.snoopMatch_iff]
  rintro ⟨p, -, hm⟩
  rw [hw.2 p, hw.1.2 p] at hm
  simp at hm

end

/-- **The snoop match.** In a run from reset whose cycles are all spared, every engine matches in
every cycle exactly when some port carries a non-aborted access to the line that it watches. -/
theorem snoop_run (f : Hwpf h) (is : List (HwpfIn h)) (hs : Along step Spared (reset f) is) :
    Along step Exact (reset f) is := by
  have hall := hs.strengthen (inv_reset f) fun _ _ hw _ => hw.step
  exact hall.mono fun _ _ hw => hw.1.exact_of_spared hw.2

/-! ## An engine that watches a line -/

open Hwpf

def port0 : Fin prefetchCfg.snoopPorts := ⟨0, by decide⟩

/-- The engine is set to watch the line `base`. -/
def watching (base : BitVec 58) : List (HwpfIn prefetchCfg) :=
  [{ noCsr with
      csrBase := fun _ => some ⟨base, false, false, true⟩
      csrParam := fun _ => some ⟨0, 1, 0⟩ }, noCsr]

/-- A cycle with one snooped request. -/
def snooped (r : SnoopPort) : HwpfIn prefetchCfg := { noCsr with snoop := fun _ => r }

/-- Accesses to other lines: one of tag 4, and a virtually indexed one whose tag is 1. -/
def elsewhere : List (HwpfIn prefetchCfg) :=
  [snooped ⟨true, false, 3, 4, true⟩, snooped ⟨true, false, 2, 0, false⟩,
    snooped ⟨false, false, 0, 1, false⟩]

/-- The byte 6 of the line 6. -/
def byteSix : HwpfIn prefetchCfg := snooped ⟨true, false, 6, 3, true⟩

/-- An engine that watches the line 6 is not fired by the accesses to the other lines, and is by
the one to the byte 6, whose offset is also the number of the line. -/
theorem exact_byteSix :
    Along step Exact (reset off) (watching 6 ++ elsewhere ++ [byteSix]) ∧
      (run step (reset off) (watching 6 ++ elsewhere)).hwpf.snoopMatch byteSix engine0 = true :=
  ⟨snoop_run off _ (by decide +kernel), by decide +kernel⟩

/-- The engine watches the line 2, whose lines have 16 bytes and whose tags begin at the bit 5. It
does not see an access to the first byte of the line, and takes one to the byte 2 of the line zero
for it. It does not see a virtually indexed access to the line either. -/
theorem lineTwo_not_exact :
    let w := run step (reset off) (watching 2)
    let hit := snooped ⟨true, false, 0, 1, true⟩
    let other := snooped ⟨true, false, 2, 0, true⟩
    let virt := w.step (snooped ⟨true, false, 0, 0, false⟩)
    let tag := snooped ⟨false, false, 0, 1, false⟩
    (w.hwpf.engine engine0).baseNline = 2 ∧
      (w.Carries hit port0 2 ∧ w.hwpf.snoopMatch hit engine0 = false) ∧
      ((∀ p, ¬ w.Carries other p 2) ∧ w.hwpf.snoopMatch other engine0 = true) ∧
      (virt.Carries tag port0 2 ∧ virt.hwpf.snoopMatch tag engine0 = false) ∧
      ¬ Along step Exact (reset off) (watching 2 ++ [hit]) := by
  intro w hit other virt tag
  have hbase : (w.hwpf.engine engine0).baseNline = 2 := by decide +kernel
  have hcarries : w.Carries hit port0 2 := by decide +kernel
  have hmatch : w.hwpf.snoopMatch hit engine0 = false := by decide +kernel
  refine ⟨hbase, ⟨hcarries, hmatch⟩, by decide +kernel, by decide +kernel, ?_⟩
  intro hall
  have hexact : w.Exact hit := (along_append.1 hall).2.1
  have hfires := (hexact engine0).2 ⟨port0, by rw [hbase]; exact hcarries⟩
  rw [hmatch] at hfires
  contradiction

end Watch

end Hpdcache
