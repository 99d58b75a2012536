import Hpdcache.DataArray

/-!
# Faults and their repair

When a request finds errors in the directory or in the data of its set, the handler walks the ways
of the set, one after the other. A way with an uncorrectable error is cleared; a way with
correctable errors only is read again, and written with what the decoders have corrected.

A way takes one, two or three cycles, and the accesses of the handler are described by the fault
alone.

* `Fault.repair` — what should be written for a way.
* `ErrFsm.Left` — the handler is done with a way.
* `MemIn.OnlyErr` — the RAMs when only the handler uses them.
-/

namespace Hpdcache

open Hw

variable {c : Cfg}

/-! ## Faults -/

/-- A set with errors, as found by a request: the ways with an error of each kind, and the words of
the data that were read. -/
structure Fault (c : Cfg) where
  set : Fin c.sets
  word : Nat
  dirUnc : Bits c.ways
  dirCor : Bits c.ways
  datUnc : Bits c.ways
  datCor : Bits c.ways

/-- A write of the handler. -/
structure Rewrite (c : Cfg) where
  set : Fin c.sets
  way : Bits c.ways
  word : Nat
  dir : Option DirEntry
  dat : Option (List Byte)

namespace Fault

variable (f : Fault c) (w : Fin c.ways)

/-- The way has an uncorrectable error. -/
def unc : Bool := f.dirUnc w || f.datUnc w

/-- The way has a correctable error. -/
def cor : Bool := f.dirCor w || f.datCor w

/-- Bytes of an access that the chip selects of the handler reach. -/
def reaches (a : Nat) : Bool :=
  MemCtrl.computeDataRamCs c (MemCtrl.accessSize c) f.word (a / c.wordBytes)

def bytes : List Nat := (List.range c.accessBytes).filter f.reaches

/-- A byte of the line is one of those. -/
def inChunk (b : Nat) : Bool :=
  decide (b / c.accessBytes = f.word / c.accessWords) && f.reaches (b % c.accessBytes)

/-- What the handler should write for a way. -/
def repair (dir : Fin c.sets → Fin c.ways → DirEntry) (dat : DataArray c) : List (Rewrite c) :=
  if f.unc w then
    [⟨f.set, ofIndex w, f.word, some .zero,
      if f.datUnc w then some (f.bytes.map fun _ => 0) else none⟩]
  else if f.cor w then
    [⟨f.set, ofIndex w, f.word, if f.dirCor w then some (dir f.set w) else none,
      if f.datCor w then some (f.bytes.map fun a =>
        dat f.set w (f.word / c.accessWords * c.accessBytes + a)) else none⟩]
  else []

/-- The cycles that the handler spends on a way. -/
def cost : Nat := if f.unc w then 2 else if f.cor w then 3 else 1

def cycles (ws : List (Fin c.ways)) : Nat := (ws.map f.cost).sum

/-- The directory without the entries of the given ways that have an uncorrectable error. -/
def cleared (ws : List (Fin c.ways)) (dir : Fin c.sets → Fin c.ways → DirEntry) :
    Fin c.sets → Fin c.ways → DirEntry :=
  fun set v => if set = f.set ∧ v ∈ ws ∧ f.unc v = true then .zero else dir set v

/-- The data with the words in error of the given ways set to zero. -/
def zeroed (ws : List (Fin c.ways)) (dat : DataArray c) : DataArray c :=
  fun set v b =>
    if set = f.set ∧ v ∈ ws ∧ f.datUnc v = true ∧ f.inChunk b = true then 0 else dat set v b

variable {f w} {ws : List (Fin c.ways)} {dir : Fin c.sets → Fin c.ways → DirEntry}
  {dat : DataArray c}

theorem repair_unc (h : f.unc w = true) : f.repair w dir dat =
    [⟨f.set, ofIndex w, f.word, some .zero,
      if f.datUnc w then some (f.bytes.map fun _ => 0) else none⟩] :=
  if_pos h

theorem repair_cor (h : f.unc w = false) (hc : f.cor w = true) : f.repair w dir dat =
    [⟨f.set, ofIndex w, f.word, if f.dirCor w then some (dir f.set w) else none,
      if f.datCor w then some (f.bytes.map fun a =>
        dat f.set w (f.word / c.accessWords * c.accessBytes + a)) else none⟩] := by
  simp only [repair, h, hc, Bool.false_eq_true, if_false, if_true]

theorem repair_none (h : f.unc w = false) (hc : f.cor w = false) : f.repair w dir dat = [] := by
  simp only [repair, h, hc, Bool.false_eq_true, if_false]

theorem zeroed_apply (set : Fin c.sets) (v : Fin c.ways) (b : Nat) : f.zeroed ws dat set v b =
    if set = f.set ∧ v ∈ ws ∧ f.datUnc v = true ∧ f.inChunk b = true then 0 else dat set v b :=
  rfl

/-- A way without an uncorrectable error keeps its entry and its data. -/
theorem cleared_of_not_unc (h : f.unc w = false) : f.cleared [w] dir = dir := by
  funext set v
  rw [cleared, if_neg]
  rintro ⟨-, hv, hu⟩
  rw [List.mem_singleton.1 hv, h] at hu
  contradiction

theorem zeroed_of_not_unc (h : f.unc w = false) : f.zeroed [w] dat = dat := by
  funext set v b
  rw [zeroed_apply, if_neg]
  rintro ⟨-, hv, hu, -⟩
  rw [List.mem_singleton.1 hv, (Bool.or_eq_false_iff.1 h).2] at hu
  contradiction

/-- The repair of a way depends on its entry and on its data. -/
theorem repair_congr {dir' : Fin c.sets → Fin c.ways → DirEntry} {dat' : DataArray c}
    (hdir : dir f.set w = dir' f.set w) (hdat : dat f.set w = dat' f.set w) :
    f.repair w dir dat = f.repair w dir' dat' := by
  rw [repair, repair, hdir, hdat]

theorem cleared_append (vs : List (Fin c.ways)) :
    f.cleared vs (f.cleared ws dir) = f.cleared (ws ++ vs) dir := by
  funext set v
  simp only [cleared, List.mem_append]
  by_cases h : set = f.set ∧ v ∈ vs ∧ f.unc v = true
  · rw [if_pos h, if_pos ⟨h.1, .inr h.2.1, h.2.2⟩]
  · rw [if_neg h]
    refine if_congr ?_ rfl rfl
    constructor
    · rintro ⟨hs, hv, hu⟩
      exact ⟨hs, .inl hv, hu⟩
    · rintro ⟨hs, hv | hv, hu⟩
      · exact ⟨hs, hv, hu⟩
      · exact absurd ⟨hs, hv, hu⟩ h

theorem zeroed_append (vs : List (Fin c.ways)) :
    f.zeroed vs (f.zeroed ws dat) = f.zeroed (ws ++ vs) dat := by
  funext set v b
  simp only [zeroed, List.mem_append]
  by_cases h : set = f.set ∧ v ∈ vs ∧ f.datUnc v = true ∧ f.inChunk b = true
  · rw [if_pos h, if_pos ⟨h.1, .inr h.2.1, h.2.2⟩]
  · rw [if_neg h]
    refine if_congr ?_ rfl rfl
    constructor
    · rintro ⟨hs, hv, hu⟩
      exact ⟨hs, .inl hv, hu⟩
    · rintro ⟨hs, hv | hv, hu⟩
      · exact ⟨hs, hv, hu⟩
      · exact absurd ⟨hs, hv, hu⟩ h

theorem cost_le : f.cost w ≤ 3 := by
  unfold cost
  split_ifs <;> decide

theorem cycles_le (ws : List (Fin c.ways)) : f.cycles ws ≤ 3 * ws.length := by
  induction ws with
  | nil => exact Nat.le_refl 0
  | cons w ws ih =>
    have hcost := f.cost_le (w := w)
    simp only [cycles, List.map_cons, List.sum_cons, List.length_cons] at ih ⊢
    omega

end Fault

/-! ## The handler -/

namespace ErrFsm

variable {e : ErrFsm c} {i : ErrIn c} {w : Fin c.ways}

/-- The fault under recovery. -/
def fault (e : ErrFsm c) : Fault c :=
  ⟨e.setQ, e.datWordQ, e.dirUncQ, e.dirCorQ, e.datUncQ, e.datCorQ⟩

end ErrFsm

/-- The fault that a request shows to the handler. The words are those of a whole access. -/
def ErrIn.fault (i : ErrIn c) : Fault c :=
  ⟨i.set, i.word / c.accessWords * c.accessWords, i.dirUnc, i.dirCor, i.datUnc, i.datCor⟩

namespace ErrFsm

variable {e : ErrFsm c} {i : ErrIn c} {w : Fin c.ways}

/-- A handler that starts has the fault, and is at the first way. -/
theorem start_step (h : e.busy = false) (h' : (e.step i).busy = true) :
    (e.step i).fault = i.fault ∧ (e.step i).fsmQ = .check ∧
      (e.step i).wayQ = ofIndex ⟨0, c.ways_pos⟩ := by
  have hecc := ecc_of_busy h'
  obtain hb | ⟨hf, ht⟩ := busy_step h'
  · rw [h] at hb
    contradiction
  simp only [step, comb, hecc, hf, ht, h, if_true, Bool.not_false, Bool.and_self]
  refine ⟨rfl, trivial, ?_⟩
  funext v
  simp [ofIndex, Fin.ext_iff]

/-- The fault does not change during its recovery. -/
theorem fault_step (h : e.busy = true) : (e.step i).fault = e.fault := by
  have hecc := ecc_of_busy h
  simp [fault, step, hecc, h]

theorem errUnc_eq (e : ErrFsm c) : e.errUnc = any e.fault.unc := by
  rw [Bool.eq_iff_iff, errUnc, Bool.or_eq_true]
  simp only [any_eq_true, Fault.unc, fault, Bool.or_eq_true, exists_or]

theorem busy_of_wait (h : e.wait = true) : e.busy = true := by
  rw [wait, Bool.and_eq_true, decide_eq_true_eq] at h
  rw [busy, h.1, h.2]
  rfl

theorem msk_ofIndex (hw : e.wayQ = ofIndex w) (v : Bits c.ways) : e.msk v = v w := by
  rw [Bool.eq_iff_iff, msk, any_eq_true, hw]
  constructor
  · rintro ⟨k, hk⟩
    rw [Bool.and_eq_true, ofIndex_eq_true] at hk
    rw [← hk.2]
    exact hk.1
  · intro hv
    exact ⟨w, by rw [hv, ofIndex_self]; rfl⟩

theorem lastWay_ofIndex (hw : e.wayQ = ofIndex w) :
    e.lastWay = decide (w.val + 1 = c.ways) := by
  have hlt := w.isLt
  rw [Bool.eq_iff_iff, lastWay, hw, ofIndex_eq_true, decide_eq_true_eq, Fin.ext_iff]
  show c.ways - 1 = w.val ↔ _
  omega

theorem wayNext_ofIndex (hw : e.wayQ = ofIndex w) (hlt : w.val + 1 < c.ways) :
    e.wayNext = ofIndex ⟨w.val + 1, hlt⟩ := by
  have hne : c.ways ≠ 1 := by omega
  funext v
  rw [wayNext, if_neg hne, Bool.eq_iff_iff, decide_eq_true_eq, ofIndex_eq_true, Fin.ext_iff, hw]
  constructor
  · rintro ⟨k, hk, hkw⟩
    rw [ofIndex_eq_true] at hkw
    rw [← hk, hkw]
  · intro hv
    exact ⟨w, hv.symm, ofIndex_self w⟩

/-- The handler is done with the way: it is at the next one, or it has stopped. -/
def Left (e : ErrFsm c) (w : Fin c.ways) : Prop :=
  (∀ h : w.val + 1 < c.ways, e.fsmQ = .check ∧ e.wayQ = ofIndex ⟨w.val + 1, h⟩) ∧
    (w.val + 1 = c.ways → e.fsmQ = e.last)

/-- The handler does nothing in the RAMs. -/
structure Idles (o : ErrOut c) : Prop where
  dirRead : o.dirRead = false
  dirWrite : o.dirWrite = false
  datRead : o.datRead = false
  datWrite : o.datWrite = false

section Walk

variable (hecc : c.eccEn = true) (hw : e.wayQ = ofIndex w)
include hecc hw

theorem left_of_comb (hb : e.busy = true)
    (hfsm : (e.comb i).fsmD = if e.lastWay then e.last else .check)
    (hway : e.lastWay = false → (e.comb i).wayD = e.wayNext) : (e.step i).Left w := by
  have hf : (e.step i).fsmQ = (e.comb i).fsmD := by simp [step, hecc]
  have hq : (e.step i).wayQ = (e.comb i).wayD := by simp [step, hecc]
  have hfault := fault_step (i := i) hb
  simp only [fault, Fault.mk.injEq] at hfault
  have hlast : (e.step i).last = e.last := by
    rw [last, last, errUnc, errUnc, hfault.2.2.1, hfault.2.2.2.2.1]
  rw [Left, hlast, hf, hq, hfsm, lastWay_ofIndex hw]
  constructor
  · intro hlt
    have hne : ¬ w.val + 1 = c.ways := by omega
    rw [decide_eq_false hne]
    refine ⟨rfl, ?_⟩
    rw [← wayNext_ofIndex hw hlt]
    apply hway
    rw [lastWay_ofIndex hw, decide_eq_false hne]
  · intro hend
    rw [decide_eq_true hend]
    rfl

/-- A way without an error is left at once. -/
theorem check_none (hf : e.fsmQ = .check) (hu : e.fault.unc w = false)
    (hc : e.fault.cor w = false) : Idles (e.comb i) ∧ (e.step i).Left w := by
  simp only [Fault.unc, Fault.cor, fault, Bool.or_eq_false_iff] at hu hc
  have hcomb : e.comb i = if e.lastWay then { e.default with fsmD := e.last }
      else { e.default with wayD := e.wayNext } := by
    simp only [comb, hecc, hf, combCheck, msk_ofIndex hw, hu, hc]
    simp
  refine ⟨?_, left_of_comb hecc hw (by simp [busy, hecc, hf]) ?_ ?_⟩
  · rw [hcomb]
    constructor <;> split_ifs <;> rfl
  · rw [hcomb]
    split_ifs
    · rfl
    · exact hf
  · intro hl
    rw [hcomb, hl]
    rfl

theorem check_unc (hf : e.fsmQ = .check) (hu : e.fault.unc w = true) :
    Idles (e.comb i) ∧ (e.step i).fsmQ = .inval ∧ (e.step i).wayQ = ofIndex w := by
  simp only [Fault.unc, fault] at hu
  have hcomb : e.comb i = { e.default with fsmD := .inval } := by
    simp only [comb, hecc, hf, combCheck, msk_ofIndex hw, hu, if_true]
  refine ⟨?_, ?_, ?_⟩
  · rw [hcomb]
    constructor <;> rfl
  · simp [step, hecc, hcomb]
  · simp [step, hecc, hcomb, default, hw]

/-- An uncorrectable error is cleared. -/
theorem inval_write (hf : e.fsmQ = .inval) : (e.comb i).dirRead = false ∧
    (e.comb i).dirWrite = true ∧ (e.comb i).dirWdata = .zero ∧ (e.comb i).datRead = false ∧
    (e.comb i).datWrite = e.datUncQ w ∧ (e.comb i).datWdata = (fun _ => 0) ∧
    (e.step i).Left w := by
  have hcomb : e.comb i =
      e.next { e.default with dirWrite := true, datWrite := e.datUncQ w } := by
    simp only [comb, hecc, hf, if_true, msk_ofIndex hw]
  have hleft : (e.step i).Left w := by
    apply left_of_comb hecc hw (by simp [busy, hecc, hf])
    · rw [hcomb, next]
      split_ifs <;> rfl
    · intro hl
      rw [hcomb, next, hl]
      rfl
  refine ⟨?_, ?_, ?_, ?_, ?_, ?_, hleft⟩ <;> rw [hcomb, next] <;> split_ifs <;> rfl

/-- A way with correctable errors only is read again. -/
theorem check_cor (hf : e.fsmQ = .check) (hu : e.fault.unc w = false)
    (hc : e.fault.cor w = true) : (e.comb i).dirRead = e.dirCorQ w ∧ (e.comb i).dirWrite = false ∧
    (e.comb i).datRead = e.datCorQ w ∧ (e.comb i).datWrite = false ∧
    (e.step i).fsmQ = .latch ∧ (e.step i).wayQ = ofIndex w := by
  simp only [Fault.unc, Fault.cor, fault] at hu hc
  have hcomb : e.comb i = { e.default with
      dirRead := e.dirCorQ w, datRead := e.datCorQ w, fsmD := .latch } := by
    simp only [comb, hecc, hf, combCheck, msk_ofIndex hw, hu, hc, if_true]
    rfl
  refine ⟨by rw [hcomb], by rw [hcomb]; rfl, by rw [hcomb], by rw [hcomb]; rfl, ?_, ?_⟩
  · simp [step, hecc, hcomb]
  · simp [step, hecc, hcomb, default, hw]

theorem latch_regs (hf : e.fsmQ = .latch) : Idles (e.comb i) ∧ (e.step i).fsmQ = .correct ∧
    (e.step i).wayQ = ofIndex w ∧
    (e.step i).dirRdataQ = (if e.dirCorQ w then i.dirRdata else e.dirRdataQ) ∧
    (e.step i).datRdataQ = (if e.datCorQ w then i.datRdata else e.datRdataQ) := by
  have hcomb : e.comb i = { e.default with
      dirRdataWe := e.dirCorQ w, datRdataWe := e.datCorQ w, fsmD := .correct } := by
    simp only [comb, hecc, hf, if_true, msk_ofIndex hw]
  refine ⟨?_, ?_, ?_, ?_, ?_⟩
  · rw [hcomb]
    constructor <;> rfl
  all_goals simp [step, hecc, hcomb, default, hw]

/-- What was latched is written. -/
theorem correct_write (hf : e.fsmQ = .correct) : (e.comb i).dirRead = false ∧
    (e.comb i).dirWrite = e.dirCorQ w ∧ (e.comb i).dirWdata = e.dirRdataQ ∧
    (e.comb i).datRead = false ∧ (e.comb i).datWrite = e.datCorQ w ∧
    (e.comb i).datWdata = e.datRdataQ ∧ (e.step i).Left w := by
  have hcomb : e.comb i = e.next { e.default with
      dirWrite := e.dirCorQ w, dirWdata := e.dirRdataQ
      datWrite := e.datCorQ w, datWdata := e.datRdataQ } := by
    simp only [comb, hecc, hf, if_true, msk_ofIndex hw]
  have hleft : (e.step i).Left w := by
    apply left_of_comb hecc hw (by simp [busy, hecc, hf])
    · rw [hcomb, next]
      split_ifs <;> rfl
    · intro hl
      rw [hcomb, next, hl]
      rfl
  refine ⟨?_, ?_, ?_, ?_, ?_, ?_, hleft⟩ <;> rw [hcomb, next] <;> split_ifs <;> rfl

end Walk

end ErrFsm

/-! ## The RAMs -/

/-- Nobody but the handler uses the RAMs. -/
structure MemIn.OnlyErr (i : MemIn c) : Prop where
  dirMatch : i.dirMatch = false
  dirRefill : i.dirRefill = false
  dirInvalCheck : i.dirInvalCheck = false
  dirInvalWrite : i.dirInvalWrite = false
  dirCmoCheckNline : i.dirCmoCheckNline = false
  dirCmoCheckEntry : i.dirCmoCheckEntry = false
  dirCmoUpdt : i.dirCmoUpdt = false
  dirUpdt : i.dirUpdt = false
  data : ∀ u, u ≠ .errRead → u ≠ .errWrite → i.uses u = false

namespace MemCtrl

variable {m : MemCtrl c} {i : MemIn c} {w : Fin c.ways}

theorem OnlyErr.dirCtrl (h : i.OnlyErr) (hn : m.initQ = true) : m.dirCtrl i =
    if c.eccEn && i.dirErrRead then .read i.dirErrSet i.dirErrWay
    else if i.dirErrWrite then .write i.dirErrSet i.dirErrWay i.dirErrWdata
    else .read m.dirReqSetQ fun _ => false := by
  simp [MemCtrl.dirCtrl, hn, h.dirMatch, h.dirRefill, h.dirInvalCheck, h.dirInvalWrite,
    h.dirCmoCheckNline, h.dirCmoCheckEntry, h.dirCmoUpdt, h.dirUpdt]

/-- The entry of a way that is written. -/
theorem OnlyErr.dirRam (h : i.OnlyErr) (hn : m.initQ = true) (hr : i.dirErrRead = false)
    (hw : i.dirErrWay = ofIndex w) (set : Fin c.sets) (v : Fin c.ways) :
    (m.step i).dirRam set v =
      if i.dirErrWrite = true ∧ set = i.dirErrSet ∧ v = w then i.dirErrWdata
      else m.dirRam set v := by
  show (if (m.dirCtrl i).addr = set ∧ (m.dirCtrl i).cs v = true ∧ (m.dirCtrl i).we v = true
    then (m.dirCtrl i).wentry else m.dirRam set v) = _
  rw [OnlyErr.dirCtrl h hn, hr, Bool.and_false]
  cases i.dirErrWrite with
  | false => simp [DirPort.read]
  | true =>
    refine if_congr ?_ rfl rfl
    show i.dirErrSet = set ∧ i.dirErrWay v = true ∧ i.dirErrWay v = true ↔ _
    rw [hw, ofIndex_eq_true, and_self]
    exact ⟨fun h => ⟨rfl, h.1.symm, h.2⟩, fun h => ⟨h.2.1.symm, h.2.2⟩⟩

/-- The entry of a way that is read. -/
theorem OnlyErr.dirRead (h : i.OnlyErr) (hn : m.initQ = true) (hecc : c.eccEn = true)
    (hr : i.dirErrRead = true) (hw : i.dirErrWay = ofIndex w) :
    (m.step i).dirErrRdata = m.dirRam i.dirErrSet w ∧ (m.step i).dirRam = m.dirRam := by
  have hall : ∀ set v, _ := fun set v => @dirRentry_err c m i set v hn h.dirMatch h.dirRefill
    h.dirInvalCheck h.dirInvalWrite h.dirCmoCheckNline h.dirCmoCheckEntry h.dirCmoUpdt h.dirUpdt
    hecc hr
  obtain ⟨hway, hentry, -⟩ := hall i.dirErrSet w
  constructor
  · rw [dirErrRdata, if_pos hecc, hway, hw, mux_ofIndex]
    apply hentry
    rw [hw, ofIndex_self]
  · funext set v
    exact (hall set v).2.2

theorem OnlyErr.uses (h : i.OnlyErr) : i.dataReqRead = false ∧ i.dataReqWrite = false ∧
    i.dataAmoWrite = false ∧ i.dataRefill = false ∧ i.dataFlushRead = false := by
  obtain ⟨hr, hw⟩ := dataReq_eq_false (h.data .req nofun nofun)
  exact ⟨hr, hw, h.data .amo nofun nofun, h.data .refill nofun nofun, h.data .flush nofun nofun⟩

theorem OnlyErr.dataWay (h : i.OnlyErr) (hw : i.dataErrWay = ofIndex w)
    (hu : i.dataErrRead = true ∨ i.dataErrWrite = true) : MemCtrl.dataWay i = ofIndex w := by
  obtain ⟨-, hreq, hamo, hrefill, hflush⟩ := OnlyErr.uses h
  rcases hu with hu | hu <;> simp [MemCtrl.dataWay, hreq, hamo, hrefill, hflush, hu, hw]

/-- The words of a way that are written. -/
theorem OnlyErr.dataRam (h : i.OnlyErr) (hw : i.dataErrWay = ofIndex w) (set : Fin c.sets)
    (v : Fin c.ways) (b : Nat) :
    (m.step i).dataRam set v b =
      if i.dataErrWrite = true ∧ set = i.dataErrSet ∧ v = w ∧
          b / c.accessBytes = i.dataErrWord / c.accessWords ∧
          computeDataRamCs c (accessSize c) i.dataErrWord
            (b % c.accessBytes / c.wordBytes) = true
      then i.dataErrWdata (b % c.accessBytes) else m.dataRam set v b := by
  obtain ⟨-, hreq, hamo, hrefill, -⟩ := OnlyErr.uses h
  by_cases hu : i.dataErrWrite = true
  · have hway := OnlyErr.dataWay h hw (.inr hu)
    have hwr : m.dataWrite i = ⟨true, true, i.dataErrSet, accessSize c, i.dataErrWord,
        i.dataErrWdata, fun _ => true⟩ := by
      simp [dataWrite, hreq, hamo, hrefill, hu]
    have hone : OneHot (MemCtrl.dataWay i) := hway ▸ oneHot_ofIndex w
    rw [dataRam_step_eq (merges_of_be hone (fun _ => by rw [hwr]) _ _ _), dataRamNext_eq hone, hwr,
      hway]
    simp only [hu, true_and, and_true, ofIndex_eq_true]
  · have hno : ((m.dataWrite i).write && (m.dataWrite i).enable) = false := by
      simp [dataWrite, hreq, hamo, hrefill, hu]
    rw [dataRam_keep (dataWe_eq_false hno), if_neg]
    intro hand
    exact hu hand.1

/-- The words of a way that are read. -/
theorem OnlyErr.dataRead (h : i.OnlyErr) (hecc : c.eccEn = true) (hw : i.dataErrWay = ofIndex w)
    (hr : i.dataErrRead = true) (hno : i.dataErrWrite = false) (flushWay : Bits c.ways) {a : Nat}
    (hcs : computeDataRamCs c (accessSize c) i.dataErrWord (a / c.wordBytes) = true) :
    (m.step i).flushReadData flushWay (ofIndex w) a =
      m.dataRam i.dataErrSet w (i.dataErrWord / c.accessWords * c.accessBytes + a) := by
  obtain ⟨hreqr, hreq, hamo, hrefill, hflush⟩ := OnlyErr.uses h
  have hread : MemCtrl.dataRead i = ⟨true, i.dataErrSet, accessSize c, i.dataErrWord⟩ := by
    simp [MemCtrl.dataRead, hreqr, hflush, hr]
  have hwr : (m.dataWrite i).write = false := by simp [dataWrite, hreq, hamo, hrefill, hno]
  rw [flushReadData_err hecc hr hflush (OnlyErr.dataWay h hw (.inl hr)),
    dataRentry_step (by rw [hread]) (by rw [hread]; exact hcs) (by rw [hwr]; rfl), hread]

end MemCtrl

end Hpdcache
