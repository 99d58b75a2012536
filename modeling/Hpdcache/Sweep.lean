import Hpdcache.CmoWalk
import Hpdcache.Reachable

/-!
# Walks over the whole cache

The controller tracks an interval of the sets that may hold valid lines, and one of those that may
hold dirty lines. A walk over the whole cache goes over such an interval, and resets it at its end.

* `Tracks` — a line is in its intervals.
* `Cache.Sweep` — what a walk has done so far.
* `Cache.SweepNext.step`, `Cache.SweepInval.step` — a walk leaves every entry behind it swept.
-/

namespace Hpdcache

open Hw

variable {c : Cfg}

/-! ## Intervals of sets -/

section Interval

variable {en ev clr : Bool} {lo hi set x : Fin c.sets}

/-- The set is in the interval, when there is one. -/
def Covers (en : Bool) (lo hi set : Fin c.sets) : Prop := en = true ∧ lo ≤ set ∧ set ≤ hi

theorem minSet_le_left (a b : Fin c.sets) : Cache.minSet a b ≤ a := by
  unfold Cache.minSet
  split_ifs with h
  · exact le_refl a
  · exact not_lt.1 h

theorem minSet_le_right (a b : Fin c.sets) : Cache.minSet a b ≤ b := by
  unfold Cache.minSet
  split_ifs with h
  · exact le_of_lt h
  · exact le_refl b

theorem le_maxSet_left (a b : Fin c.sets) : a ≤ Cache.maxSet a b := by
  unfold Cache.maxSet
  split_ifs with h
  · exact le_of_lt h
  · exact le_refl a

theorem le_maxSet_right (a b : Fin c.sets) : b ≤ Cache.maxSet a b := by
  unfold Cache.maxSet
  split_ifs with h
  · exact le_refl b
  · exact not_lt.1 h

/-- A set stays in the interval that grows. -/
theorem Covers.grow (h : Covers en lo hi set) (hc : clr = false) :
    Covers (ev || (!clr && en)) (if ev then (if en then Cache.minSet x lo else x) else lo)
      (if ev then (if en then Cache.maxSet x hi else x) else hi) set := by
  obtain ⟨hen, hlo, hhi⟩ := h
  subst hen hc
  cases ev with
  | false => exact ⟨rfl, hlo, hhi⟩
  | true => exact ⟨rfl, (minSet_le_right x lo).trans hlo, hhi.trans (le_maxSet_right x hi)⟩

/-- A set that is added is in the interval. -/
theorem covers_add (he : ev = true) :
    Covers (ev || (!clr && en)) (if ev then (if en then Cache.minSet x lo else x) else lo)
      (if ev then (if en then Cache.maxSet x hi else x) else hi) x := by
  subst he
  cases en with
  | false => exact ⟨rfl, le_refl x, le_refl x⟩
  | true => exact ⟨rfl, minSet_le_left x lo, le_maxSet_left x hi⟩

/-- An interval that is not empty stays so. -/
theorem interval_grow (h : en = true → lo ≤ hi) (hen : (ev || (!clr && en)) = true) :
    (if ev then (if en then Cache.minSet x lo else x) else lo) ≤
      (if ev then (if en then Cache.maxSet x hi else x) else hi) := by
  cases ev with
  | false =>
    simp only [Bool.false_or, Bool.and_eq_true] at hen
    exact h hen.2
  | true =>
    cases en with
    | false => exact le_refl x
    | true => exact (minSet_le_left x lo).trans (le_maxSet_left x hi)

end Interval

/-- The set of a line is in the interval of the valid lines, and in that of the dirty ones when it
is dirty. -/
structure Tracks (t : CmoSets c) (set : Fin c.sets) (e : DirEntry) : Prop where
  valid : e.valid = true → Covers t.validEnQ t.validMinQ t.validMaxQ set
  dirty : e.valid = true → e.dirty = true → Covers t.dirtyEnQ t.dirtyMinQ t.dirtyMaxQ set

theorem Tracks.of_not_valid {t : CmoSets c} {set : Fin c.sets} {e : DirEntry}
    (h : e.valid = false) : Tracks t set e := by
  constructor
  · intro hv
    rw [h] at hv
    contradiction
  · intro hv
    rw [h] at hv
    contradiction

/-! ## Walks over the whole cache -/

/-- What a walk that flushes leaves of an entry: no dirty line, and no line if it invalidates. -/
def DirEntry.Swept (inval : Bool) (e : DirEntry) : Prop :=
  e.valid = true → inval = false ∧ e.dirty = false

namespace Cmo

variable {m : Cmo c} {i : CmoIn c}

/-- The operation flushes, and invalidates or not. -/
def Flushes (m : Cmo c) (op opInval : ReqOp) : Prop :=
  (m.opQ = op ∧ m.flushReqInvalQ = false ∧ c.wbEn = true) ∨
    (m.opQ = opInval ∧ m.flushReqInvalQ = true)

/-- The operation flushes all the lines. -/
def FlushesAll (m : Cmo c) : Prop := m.Flushes .cmoFlushAll .cmoFlushInvalAll

/-- The operation flushes one line. -/
def FlushesNline (m : Cmo c) : Prop := m.Flushes .cmoFlushNline .cmoFlushInvalNline

/-- The operation invalidates all the lines. -/
def InvalsAll (m : Cmo c) : Prop := m.opQ = .cmoInvalAll ∨ m.opQ = .cmoFlushInvalAll

/-- The operation invalidates one line. -/
def InvalsNline (m : Cmo c) : Prop := m.opQ = .cmoInvalNline ∨ m.opQ = .cmoFlushInvalNline

/-- There is nothing to invalidate or to flush. -/
def Nothing (m : Cmo c) (i : CmoIn c) : Prop :=
  (m.InvalsNline ∨ m.InvalsAll) ∧ i.validSetEn = false ∨
    (m.opQ = .cmoFlushNline ∨ m.opQ = .cmoFlushAll) ∧ i.dirtySetEn = false

/-- What the handler does when the other units are empty. -/
theorem combStart_cases (m : Cmo c) (i : CmoIn c) (o : CmoOut c) :
    (m.Nothing i ∧ m.combStart i o = m.done o) ∨ m.combStart i o = o ∨
    (m.opQ = .cmoInvalNline ∧ m.combStart i o = { o with fsmD := .invalCheckNline }) ∨
    (m.opQ = .cmoInvalAll ∧ i.validSetEn = true ∧
      m.combStart i o = { o with invalSetReset := true, fsmD := .invalSet }) ∨
    (m.opQ = .cmoFlushNline ∧ i.dirtySetEn = true ∧
      m.combStart i o = { o with flushReqInvalD := false, fsmD := .flushNlineFirst }) ∨
    (m.opQ = .cmoFlushAll ∧ i.dirtySetEn = true ∧ m.combStart i o =
      { o with flushSetReset := true, flushReqInvalD := false, fsmD := .flushAllFirst }) ∨
    (m.opQ = .cmoFlushInvalNline ∧
      m.combStart i o = { o with flushReqInvalD := true, fsmD := .flushNlineFirst }) ∨
    (m.opQ = .cmoFlushInvalAll ∧ i.validSetEn = true ∧ m.combStart i o =
      { o with invalSetReset := true, flushReqInvalD := true, fsmD := .flushAllFirst }) := by
  unfold combStart
  cases hop : m.opQ <;> dsimp only <;> try exact .inr (.inl rfl)
  · by_cases hen : i.validSetEn = true
    · rw [if_pos hen]
      exact .inr (.inr (.inl ⟨rfl, rfl⟩))
    · rw [if_neg hen]
      exact .inl ⟨.inl ⟨.inl (.inl hop), by simpa using hen⟩, rfl⟩
  · by_cases hen : i.validSetEn = true
    · rw [if_pos hen]
      exact .inr (.inr (.inr (.inl ⟨rfl, hen, rfl⟩)))
    · rw [if_neg hen]
      exact .inl ⟨.inl ⟨.inr (.inl hop), by simpa using hen⟩, rfl⟩
  · by_cases hen : i.dirtySetEn = true
    · rw [if_pos hen]
      exact .inr (.inr (.inr (.inr (.inl ⟨rfl, hen, rfl⟩))))
    · rw [if_neg hen]
      exact .inl ⟨.inr ⟨.inl hop, by simpa using hen⟩, rfl⟩
  · by_cases hen : i.dirtySetEn = true
    · rw [if_pos hen]
      exact .inr (.inr (.inr (.inr (.inr (.inl ⟨rfl, hen, rfl⟩)))))
    · rw [if_neg hen]
      exact .inl ⟨.inr ⟨.inr hop, by simpa using hen⟩, rfl⟩
  · by_cases hen : i.validSetEn = true
    · rw [if_pos hen]
      exact .inr (.inr (.inr (.inr (.inr (.inr (.inl ⟨rfl, rfl⟩))))))
    · rw [if_neg hen]
      exact .inl ⟨.inl ⟨.inl (.inr hop), by simpa using hen⟩, rfl⟩
  · by_cases hen : i.validSetEn = true
    · rw [if_pos hen]
      exact .inr (.inr (.inr (.inr (.inr (.inr (.inr ⟨rfl, hen, rfl⟩))))))
    · rw [if_neg hen]
      exact .inl ⟨.inl ⟨.inr (.inr hop), by simpa using hen⟩, rfl⟩

/-- The handler resets the tracked intervals at the end of a walk only. -/
theorem comb_resets (h : (m.comb i).flushAll = true ∨ (m.comb i).invalAll = true) :
    (m.fsmQ = .flushAllLast ∧ (i.flushEmpty && (m.flushAlloc i).isNone) = true) ∨
      (m.fsmQ = .invalSet ∧ m.InvalsAll ∧ m.setLast i = true) := by
  cases hf : m.fsmQ with
  | idle =>
    simp only [comb, hf, combIdle, default] at h
    split_ifs at h <;> simp at h
  | fenceWaitWbufRtabEmpty =>
    simp only [comb, hf, combFenceWait, default, done] at h
    split_ifs at h <;> simp at h
  | waitMshrRtabEmpty =>
    simp only [comb, hf, combWaitMshr] at h
    split_ifs at h with he
    · rcases combStart_cases m i m.default with ⟨-, h'⟩ | h' | ⟨-, h'⟩ | ⟨-, -, h'⟩ | ⟨-, -, h'⟩ |
        ⟨-, -, h'⟩ | ⟨-, h'⟩ | ⟨-, -, h'⟩ <;> rw [h'] at h <;> simp [default, done] at h
    · simp [default] at h
  | invalCheckNline => simp [comb, hf, default] at h
  | invalSet =>
    refine .inr ⟨rfl, ?_⟩
    simp only [comb, hf, combInvalSet] at h
    cases hop : m.opQ <;> rw [hop] at h <;> simp [default, done] at h <;>
      · refine ⟨by simp [InvalsAll, hop], ?_⟩
        split_ifs at h with hl
        · exact hl
        · simp at h
  | flushAllFirst =>
    simp only [comb, hf, combFlushAllFirst, default, done, checkEntry] at h
    split_ifs at h <;> simp at h
  | flushAllNext =>
    simp only [comb, hf, combFlushAllNext, default, updtEntry, checkEntry] at h
    split_ifs at h <;> simp at h
  | flushAllLast =>
    refine .inl ⟨rfl, ?_⟩
    by_contra he
    simp only [comb, hf, combFlushAllLast, default, updtEntry] at h
    rw [if_neg he] at h
    split_ifs at h <;> simp at h
  | flushNlineFirst =>
    simp only [comb, hf, combFlushNlineFirst, default, done] at h
    split_ifs at h <;> simp at h
  | flushNlineNext =>
    simp only [comb, hf, combFlushNlineNext, default, done] at h
    split_ifs at h <;> simp at h

/-- What the handler writes in the directory is clean. -/
theorem dirUpdtEntry_dirty (m : Cmo c) (i : CmoIn c) : (m.comb i).dirUpdtEntry.dirty = false := by
  cases hf : m.fsmQ with
  | idle =>
    simp only [comb, hf, combIdle, default]
    split_ifs <;> rfl
  | fenceWaitWbufRtabEmpty =>
    simp only [comb, hf, combFenceWait, default, done]
    split_ifs <;> rfl
  | waitMshrRtabEmpty =>
    simp only [comb, hf, combWaitMshr]
    split_ifs with he
    · rcases combStart_cases m i m.default with ⟨-, h'⟩ | h' | ⟨-, h'⟩ | ⟨-, -, h'⟩ | ⟨-, -, h'⟩ |
        ⟨-, -, h'⟩ | ⟨-, h'⟩ | ⟨-, -, h'⟩ <;> rw [h'] <;> rfl
    · rfl
  | invalCheckNline => simp only [comb, hf]; rfl
  | invalSet =>
    simp only [comb, hf, combInvalSet, default, done]
    cases m.opQ <;> dsimp only <;> (try split_ifs) <;> rfl
  | flushAllFirst =>
    simp only [comb, hf, combFlushAllFirst, default, done, checkEntry]
    split_ifs <;> rfl
  | flushAllNext =>
    simp only [comb, hf, combFlushAllNext, default, updtEntry, checkEntry]
    split_ifs <;> rfl
  | flushAllLast =>
    simp only [comb, hf, combFlushAllLast, default, updtEntry, done]
    split_ifs <;> rfl
  | flushNlineFirst =>
    simp only [comb, hf, combFlushNlineFirst, default, done]
    split_ifs <;> rfl
  | flushNlineNext =>
    simp only [comb, hf, combFlushNlineNext, default, done]
    split_ifs <;> rfl

end Cmo

namespace Cache

variable {s : Cache c} {i : CacheIn c} {set : Fin c.sets} {w : Fin c.ways}

/-- The last set of a walk. -/
def sweepMax (s : Cache c) : Fin c.sets :=
  if s.cmo.opQ = .cmoFlushAll then s.cmoSets.dirtyMaxQ else s.cmoSets.validMaxQ

/-- The entry read in the previous cycle is the one that the walk updates. -/
structure Checked (s : Cache c) : Prop where
  way : s.mem.dirReqWayQ = s.cmo.flushReqWayQ
  one : ∃ v, s.cmo.flushReqWayQ = ofIndex v
  entry : ∀ w, s.cmo.flushReqWayQ w = true →
    s.mem.dirRentry w = s.mem.dirRam s.cmo.flushReqSetQ w

/-- A walk that flushes, before its first entry. -/
structure SweepFirst (s : Cache c) : Prop where
  op : s.cmo.FlushesAll
  way : s.cmo.wayQ = Cmo.wayFirst
  le : s.cmo.setQ ≤ s.sweepMax
  swept : ∀ set < s.cmo.setQ, ∀ w, (s.mem.dirRam set w).Swept s.cmo.flushReqInvalQ

/-- A walk that flushes: the entries behind it are swept, but the one that is read. -/
structure SweepNext (s : Cache c) : Prop where
  op : s.cmo.FlushesAll
  way : ∃ v, s.cmo.wayQ = ofIndex v
  le : s.cmo.setQ ≤ s.sweepMax
  swept : ∀ set w, s.cmo.Past set w → ¬ s.cmo.Pending set w →
    (s.mem.dirRam set w).Swept s.cmo.flushReqInvalQ
  checked : s.cmo.flushReqValidQ = true → s.Checked

/-- The end of a walk that flushes. -/
structure SweepLast (s : Cache c) : Prop where
  op : s.cmo.FlushesAll
  swept : ∀ set w, ¬ s.cmo.Pending set w → (s.mem.dirRam set w).Swept s.cmo.flushReqInvalQ
  checked : s.cmo.flushReqValidQ = true → s.Checked

/-- A walk that invalidates set by set. -/
structure SweepInval (s : Cache c) : Prop where
  op : s.cmo.InvalsAll
  le : s.cmo.setQ ≤ s.cmoSets.validMaxQ
  swept : ∀ set < s.cmo.setQ, ∀ w, (s.mem.dirRam set w).valid = false

/-- The lookup of the line of an operation. -/
def LooksUp (s : Cache c) : Prop := ∀ w, s.mem.dirRentry w = s.mem.dirRam s.cmo.nlineQ.set w

/-- A walk that flushes one line, once it has looked it up. -/
structure SweepLine (s : Cache c) : Prop where
  op : s.cmo.FlushesNline
  looked : s.cmo.flushReqValidQ = true → s.LooksUp
  swept : s.cmo.flushReqValidQ = false → ∀ w,
    (s.mem.dirRam s.cmo.nlineQ.set w).tag = s.cmo.nlineQ.tag →
      (s.mem.dirRam s.cmo.nlineQ.set w).Swept s.cmo.flushReqInvalQ

/-- What a walk has done so far. -/
def Sweep (s : Cache c) : Prop :=
  match s.cmo.fsmQ with
  | .waitMshrRtabEmpty => s.cmo.wayQ = Cmo.wayFirst
  | .invalCheckNline => s.cmo.InvalsNline
  | .invalSet => s.SweepInval ∨ s.cmo.InvalsNline ∧ s.LooksUp
  | .flushAllFirst => s.SweepFirst
  | .flushAllNext => s.SweepNext
  | .flushAllLast => s.SweepLast
  | .flushNlineFirst => s.cmo.FlushesNline
  | .flushNlineNext => s.SweepLine
  | _ => True

/-! ## The intervals in a cycle -/

theorem covers_valid_step {set : Fin c.sets}
    (h : Covers s.cmoSets.validEnQ s.cmoSets.validMinQ s.cmoSets.validMaxQ set)
    (hr : (s.cmoOut i).invalAll = false) :
    Covers (s.step i).cmoSets.validEnQ (s.step i).cmoSets.validMinQ
      (s.step i).cmoSets.validMaxQ set :=
  h.grow hr

theorem covers_dirty_step {set : Fin c.sets}
    (h : Covers s.cmoSets.dirtyEnQ s.cmoSets.dirtyMinQ s.cmoSets.dirtyMaxQ set)
    (hr : (s.cmoOut i).flushAll = false) :
    Covers (s.step i).cmoSets.dirtyEnQ (s.step i).cmoSets.dirtyMinQ
      (s.step i).cmoSets.dirtyMaxQ set :=
  h.grow hr

theorem covers_valid_refill (hw : (s.refill i).writeDir = true)
    (hv : s.miss.refillDirEntry.valid = true) :
    Covers (s.step i).cmoSets.validEnQ (s.step i).cmoSets.validMinQ
      (s.step i).cmoSets.validMaxQ (s.refill i).set :=
  covers_add (by rw [hw, hv]; rfl)

theorem covers_dirty_updt (hu : s.st2.dirUpdtQ.updt = true) (hd : s.st2.dirUpdtQ.dirty = true) :
    Covers (s.step i).cmoSets.dirtyEnQ (s.step i).cmoSets.dirtyMinQ
      (s.step i).cmoSets.dirtyMaxQ s.st2.dirUpdtSetQ := by
  have hset : (if (s.st2.dirUpdtQ.updt && s.st2.dirUpdtQ.dirty) = true then s.st2.dirUpdtSetQ
      else (s.refill i).set) = s.st2.dirUpdtSetQ := if_pos (by rw [hu, hd]; rfl)
  have hadd : Covers (s.step i).cmoSets.dirtyEnQ (s.step i).cmoSets.dirtyMinQ
      (s.step i).cmoSets.dirtyMaxQ
      (if (s.st2.dirUpdtQ.updt && s.st2.dirUpdtQ.dirty) = true then s.st2.dirUpdtSetQ
        else (s.refill i).set) := covers_add (by rw [hu, hd]; rfl)
  rw [hset] at hadd
  exact hadd

/-- The line of a refill is not recorded in a cycle in which stage 2 records one. -/
theorem covers_dirty_refill (hu : s.st2.dirUpdtQ.updt = false)
    (hw : (s.refill i).writeDir = true) (hd : s.miss.refillDirEntry.dirty = true) :
    Covers (s.step i).cmoSets.dirtyEnQ (s.step i).cmoSets.dirtyMinQ
      (s.step i).cmoSets.dirtyMaxQ (s.refill i).set := by
  have hset : (if (s.st2.dirUpdtQ.updt && s.st2.dirUpdtQ.dirty) = true then s.st2.dirUpdtSetQ
      else (s.refill i).set) = (s.refill i).set := if_neg (by rw [hu]; simp)
  have hadd : Covers (s.step i).cmoSets.dirtyEnQ (s.step i).cmoSets.dirtyMinQ
      (s.step i).cmoSets.dirtyMaxQ
      (if (s.st2.dirUpdtQ.updt && s.st2.dirUpdtQ.dirty) = true then s.st2.dirUpdtSetQ
        else (s.refill i).set) := covers_add (by rw [hw, hd]; simp)
  rw [hset] at hadd
  exact hadd

/-- Without a refill and an update of the pipeline, the tracked sets are only reset. -/
theorem cmoSets_step (hu : s.st2.dirUpdtQ.updt = false) (hdir : (s.refill i).writeDir = false) :
    (s.step i).cmoSets =
      { s.cmoSets with
        dirtyEnQ := !(s.cmoOut i).flushAll && s.cmoSets.dirtyEnQ
        validEnQ := !(s.cmoOut i).invalAll && s.cmoSets.validEnQ } := by
  simp only [step, stepCmoSets, hu, hdir, Bool.false_and, Bool.or_self, Bool.false_eq_true,
    if_false, Bool.false_or]

theorem cmoSets_step_of_walk (h : s.Owned) (hw : s.cmo.fsmQ.walks = true)
    (hr : s.miss.refillBusy = false) :
    (s.step i).cmoSets =
      { s.cmoSets with
        dirtyEnQ := !(s.cmoOut i).flushAll && s.cmoSets.dirtyEnQ
        validEnQ := !(s.cmoOut i).invalAll && s.cmoSets.validEnQ } := by
  have hst2 := (h.walk hw).2.1
  simp only [st2Busy, Bool.or_eq_false_iff] at hst2
  exact cmoSets_step hst2.2 (MissHandler.comb_quiet hr (refillReqReady_of_walks hw)).1

/-! ## The steps of a walk that flushes -/

theorem sweepMax_step (h : s.Owned) (hw : s.cmo.fsmQ.walks = true) (hr : s.miss.refillBusy = false)
    (hop : (s.cmoOut i).opD = s.cmo.opQ) : (s.step i).sweepMax = s.sweepMax := by
  have hsets := cmoSets_step_of_walk (i := i) h hw hr
  have hop' : (s.step i).cmo.opQ = s.cmo.opQ := hop
  unfold sweepMax
  rw [hsets, hop']

theorem setLast_of_flushesAll (h : s.cmo.FlushesAll) :
    s.cmo.setLast (s.cmoIn i) = decide (s.cmo.setQ = s.sweepMax) := by
  unfold Cmo.setLast sweepMax cmoIn
  rcases h with ⟨hop, -, hwb⟩ | ⟨hop, -⟩
  · rw [if_pos hop, if_pos hop]
    simp [hwb]
  · have hne : s.cmo.opQ ≠ .cmoFlushAll := by simp [hop]
    rw [if_neg hne, if_neg hne]

/-- The sets that are not tracked are swept already. -/
theorem swept_of_tracks {e : DirEntry} (hop : s.cmo.FlushesAll) (ht : Tracks s.cmoSets set e)
    (hset : s.sweepMax < set ∨
      set < if s.cmo.opQ = .cmoFlushAll then s.cmoSets.dirtyMinQ else s.cmoSets.validMinQ) :
    e.Swept s.cmo.flushReqInvalQ := by
  intro hv
  rcases hop with ⟨hop, hinval, -⟩ | ⟨hop, hinval⟩
  · rw [sweepMax, if_pos hop, if_pos hop] at hset
    refine ⟨hinval, ?_⟩
    by_contra hd
    rw [Bool.not_eq_false] at hd
    obtain ⟨-, hlo, hhi⟩ := ht.dirty hv hd
    rcases hset with hset | hset
    · exact absurd hhi (not_le.2 hset)
    · exact absurd hlo (not_le.2 hset)
  · exfalso
    rw [sweepMax, if_neg (by simp [hop]), if_neg (by simp [hop])] at hset
    obtain ⟨-, hlo, hhi⟩ := ht.valid hv
    rcases hset with hset | hset
    · exact absurd hhi (not_le.2 hset)
    · exact absurd hlo (not_le.2 hset)

/-- The walk reads the entry at its position. -/
theorem checked_step {f : CmoFsm} (hq : MemCtrl.OnlyCmo s.mem (s.memIn i)) {v : Fin c.ways}
    (hv : s.cmo.wayQ = ofIndex v)
    (ho : s.cmoOut i = { s.cmo.checkEntry s.cmo.default with fsmD := f }) :
    (s.step i).Checked ∧ (s.step i).mem.dirRam = s.mem.dirRam := by
  have hn : (s.memIn i).dirCmoCheckNline = false := by
    show (s.cmoOut i).dirCheckNline = false
    rw [ho]
    rfl
  have he : (s.memIn i).dirCmoCheckEntry = true := by
    show (s.cmoOut i).dirCheckEntry = true
    rw [ho]
    rfl
  obtain ⟨hreq, hentry, hram⟩ := hq.checkEntry hn he
  have hway : (s.step i).cmo.flushReqWayQ = s.cmo.wayQ := by
    show (s.cmoOut i).flushReqWayD = s.cmo.wayQ
    rw [ho]
    rfl
  have hset : (s.step i).cmo.flushReqSetQ = s.cmo.setQ := by
    show (s.cmoOut i).flushReqSetD = s.cmo.setQ
    rw [ho]
    rfl
  refine ⟨⟨?_, ⟨v, ?_⟩, ?_⟩, hram⟩
  · rw [hway]
    exact hreq
  · rw [hway, hv]
  · intro w hw
    rw [hway] at hw
    rw [hset]
    exact (hentry w hw).trans (congrFun (congrFun hram.symm _) w)

/-- What is pending after the walk has read an entry. -/
theorem pending_check {f : CmoFsm}
    (ho : s.cmoOut i = { s.cmo.checkEntry s.cmo.default with fsmD := f })
    (hp : set = s.cmo.setQ ∧ s.cmo.wayQ w = true) : (s.step i).cmo.Pending set w := by
  have hvalid : (s.step i).cmo.flushReqValidQ = true := by
    show (s.cmoOut i).flushReqValidD = true
    rw [ho]
    rfl
  have hset : (s.step i).cmo.flushReqSetQ = s.cmo.setQ := by
    show (s.cmoOut i).flushReqSetD = s.cmo.setQ
    rw [ho]
    rfl
  have hway : (s.step i).cmo.flushReqWayQ = s.cmo.wayQ := by
    show (s.cmoOut i).flushReqWayD = s.cmo.wayQ
    rw [ho]
    rfl
  refine ⟨hvalid, ?_, ?_⟩
  · rw [hset, hp.1]
  · rw [hway, hp.2]

theorem flushes_step {op opInval : ReqOp} (hop : (s.cmoOut i).opD = s.cmo.opQ)
    (hinval : (s.cmoOut i).flushReqInvalD = s.cmo.flushReqInvalQ)
    (h : s.cmo.Flushes op opInval) : (s.step i).cmo.Flushes op opInval := by
  have hop' : (s.step i).cmo.opQ = s.cmo.opQ := hop
  have hinval' : (s.step i).cmo.flushReqInvalQ = s.cmo.flushReqInvalQ := hinval
  unfold Cmo.Flushes
  rw [hop', hinval']
  exact h

/-- A walk that reads an entry goes on. -/
theorem sweepNext_of_check {f : CmoFsm} (h : s.Owned) (hw : s.cmo.fsmQ.walks = true)
    (hr : s.miss.refillBusy = false) (hq : MemCtrl.OnlyCmo s.mem (s.memIn i))
    (hop : s.cmo.FlushesAll) {v : Fin c.ways} (hv : s.cmo.wayQ = ofIndex v)
    (hle : s.cmo.setQ ≤ s.sweepMax)
    (hswept : ∀ set w, s.cmo.Past set w → (s.mem.dirRam set w).Swept s.cmo.flushReqInvalQ)
    (ho : s.cmoOut i = { s.cmo.checkEntry s.cmo.default with fsmD := f }) :
    (s.step i).SweepNext := by
  have hchecks : s.cmo.Checks (s.cmoOut i) := by
    rw [ho]
    exact ⟨rfl, rfl, rfl, rfl, rfl⟩
  have hopD : (s.cmoOut i).opD = s.cmo.opQ := by
    rw [ho]
    rfl
  have hinvalD : (s.cmoOut i).flushReqInvalD = s.cmo.flushReqInvalQ := by
    rw [ho]
    rfl
  have hinval : (s.step i).cmo.flushReqInvalQ = s.cmo.flushReqInvalQ := hinvalD
  have hlast := setLast_of_flushesAll (i := i) hop
  obtain ⟨hchecked, hram⟩ := checked_step hq hv ho
  refine ⟨flushes_step hopD hinvalD hop, hchecks.way hv, ?_, ?_, fun _ => hchecked⟩
  · rw [sweepMax_step h hw hr hopD]
    exact hchecks.setD_le hle hlast
  · intro set w hp hnp
    rw [hinval, hram]
    rcases Cmo.past_check hchecks rfl rfl hv hle hlast hp with hp' | hp'
    · exact hswept set w hp'
    · exact absurd (pending_check ho hp') hnp

/-- A walk that waits is where it was. -/
theorem step_default {f : CmoFsm} (hq : MemCtrl.OnlyCmo s.mem (s.memIn i)) {v : Fin c.ways}
    (hv : s.cmo.wayQ = ofIndex v) (ho : s.cmoOut i = { s.cmo.default with fsmD := f }) :
    (s.step i).cmo.wayQ = s.cmo.wayQ ∧ (s.step i).cmo.setQ = s.cmo.setQ ∧
      (s.step i).mem.dirRam = s.mem.dirRam := by
  refine ⟨?_, ?_, ?_⟩
  · show s.cmo.wayD (s.cmoOut i) = s.cmo.wayQ
    rw [ho]
    exact Cmo.wayD_keep rfl rfl hv
  · show s.cmo.setD (s.cmoIn i) (s.cmoOut i) = s.cmo.setQ
    rw [ho]
    rfl
  · refine hq.keep ?_ ?_ ?_
    · show (s.cmoOut i).dirCheckNline = false
      rw [ho]
      rfl
    · show (s.cmoOut i).dirCheckEntry = false
      rw [ho]
      rfl
    · show (s.cmoOut i).dirUpdt = false
      rw [ho]
      rfl

/-- A walk that flushes begins. -/
theorem SweepFirst.step (h : s.SweepFirst) (hown : s.Owned) (hf : s.cmo.fsmQ = .flushAllFirst)
    (hr : s.miss.refillBusy = false) (hq : MemCtrl.OnlyCmo s.mem (s.memIn i)) :
    (s.step i).Sweep := by
  have hw : s.cmo.fsmQ.walks = true := by rw [hf]; rfl
  have hway := h.way.trans Cmo.wayFirst_eq
  have hcomb : s.cmoOut i = s.cmo.combFlushAllFirst (s.cmoIn i) := by
    unfold cmoOut Cmo.comb
    rw [hf]
  have hfsm : (s.step i).cmo.fsmQ = (s.cmoOut i).fsmD := rfl
  have hpast (set : Fin c.sets) (w : Fin c.ways) (hp : s.cmo.Past set w) : set < s.cmo.setQ := by
    rcases hp with hlt | ⟨-, hlt⟩
    · exact hlt
    · have := hlt ⟨0, c.ways_pos⟩ (by rw [h.way]; rfl)
      exact absurd (Fin.lt_def.1 this) (Nat.not_lt_zero _)
  unfold Cmo.combFlushAllFirst at hcomb
  unfold Sweep
  by_cases hwb : c.wbEn = true
  · rw [if_pos hwb] at hcomb
    by_cases hok : s.cmo.flushReqWok (s.cmoIn i) = true
    · rw [if_pos hok] at hcomb
      rw [hfsm, hcomb]
      exact sweepNext_of_check hown hw hr hq h.op hway h.le
        (fun set w hp => h.swept set (hpast set w hp) w) hcomb
    · -- the buffer of the lines to flush is full
      rw [if_neg hok] at hcomb
      obtain ⟨hway', hset, hram⟩ := step_default (f := s.cmo.fsmQ) hq hway hcomb
      have hfsm' : (s.step i).cmo.fsmQ = .flushAllFirst := by
        rw [hfsm, hcomb]
        exact hf
      have hopD : (s.cmoOut i).opD = s.cmo.opQ := by
        rw [hcomb]
        rfl
      have hinvalD : (s.cmoOut i).flushReqInvalD = s.cmo.flushReqInvalQ := by
        rw [hcomb]
        rfl
      have hinval : (s.step i).cmo.flushReqInvalQ = s.cmo.flushReqInvalQ := hinvalD
      rw [hfsm']
      refine ⟨flushes_step hopD hinvalD h.op, hway'.trans h.way, ?_, ?_⟩
      · rw [sweepMax_step hown hw hr hopD, hset]
        exact h.le
      · rw [hset, hinval, hram]
        exact h.swept
  · -- without write-back there is nothing to flush
    have hop : s.cmo.opQ = .cmoFlushInvalAll ∧ s.cmo.flushReqInvalQ = true :=
      h.op.resolve_left fun hop => hwb hop.2.2
    rw [if_neg hwb, if_pos hop.2] at hcomb
    obtain ⟨-, hset, hram⟩ := step_default hq hway hcomb
    have hsets := cmoSets_step_of_walk (i := i) hown hw hr
    have hop' : (s.step i).cmo.opQ = .cmoFlushInvalAll := by
      show (s.cmoOut i).opD = .cmoFlushInvalAll
      rw [hcomb]
      exact hop.1
    rw [hfsm, hcomb]
    refine .inl ⟨.inr hop', ?_, ?_⟩
    · have hle := h.le
      rw [sweepMax, if_neg (by simp [hop.1])] at hle
      rw [hset, hsets]
      exact hle
    · intro set hlt w
      rw [hset] at hlt
      rw [hram]
      by_contra hv
      have hswept := (h.swept set hlt w (by simpa using hv)).1
      rw [hop.2] at hswept
      contradiction

/-! ### Updates -/

/-- The entry that the walk has read, as the handler sees it. -/
theorem Checked.flags (h : s.Checked) {w : Fin c.ways} (hw : s.cmo.flushReqWayQ w = true) :
    (s.cmoIn i).dirCheckEntryValid = (s.mem.dirRam s.cmo.flushReqSetQ w).valid ∧
      (s.cmoIn i).dirCheckEntryDirty = (s.mem.dirRam s.cmo.flushReqSetQ w).dirty ∧
      (s.cmoIn i).dirCheckEntryWback = (s.mem.dirRam s.cmo.flushReqSetQ w).wback ∧
      (s.cmoIn i).dirCheckEntryTag = (s.mem.dirRam s.cmo.flushReqSetQ w).tag := by
  obtain ⟨v, hv⟩ := h.one
  have hone : s.mem.dirReqWayQ = ofIndex w := by
    rw [h.way]
    rw [hv, ofIndex_eq_true] at hw
    rw [hv, hw]
  have hflag (f : DirEntry → Bool) :
      s.mem.flag s.mem.dirReqWayQ f = f (s.mem.dirRam s.cmo.flushReqSetQ w) := by
    rw [← h.entry w hw, hone, MemCtrl.flag, Bool.eq_iff_iff, any_eq_true]
    constructor
    · intro hex
      obtain ⟨u, hu⟩ := hex
      rw [Bool.and_eq_true, ofIndex_eq_true] at hu
      rw [← hu.1]
      exact hu.2
    · intro hf
      exact ⟨w, by rw [ofIndex_self, hf]; rfl⟩
  refine ⟨hflag _, hflag _, hflag _, ?_⟩
  show s.mem.tagOf s.mem.dirReqWayQ = _
  rw [MemCtrl.tagOf, hone, mux_ofIndex, h.entry w hw]

/-- The update of the entry that the walk has read. -/
structure Updates (s : Cache c) (i : CacheIn c) : Prop where
  not_nline : (s.cmoOut i).dirCheckNline = false
  not_entry : (s.cmoOut i).dirCheckEntry = false
  updt : (s.cmoOut i).dirUpdt = ((s.cmoIn i).dirCheckEntryValid &&
    ((s.cmoIn i).dirCheckEntryDirty || s.cmo.flushReqInvalQ))
  set : (s.cmoOut i).dirUpdtSet = s.cmo.flushReqSetQ
  way : (s.cmoOut i).dirUpdtWay = s.cmo.flushReqWayQ
  entry : (s.cmoOut i).dirUpdtEntry =
    ⟨!s.cmo.flushReqInvalQ, !s.cmo.flushReqInvalQ && (s.cmoIn i).dirCheckEntryWback, false, false,
      (s.cmoIn i).dirCheckEntryTag⟩

theorem updates_flushAllNext (hf : s.cmo.fsmQ = .flushAllNext) (hv : s.cmo.flushReqValidQ = true) :
    s.Updates i := by
  have hcomb : s.cmoOut i = s.cmo.combFlushAllNext (s.cmoIn i) := by
    unfold cmoOut Cmo.comb
    rw [hf]
  rw [Cmo.combFlushAllNext, if_pos hv] at hcomb
  constructor <;> rw [hcomb] <;> rfl

theorem updates_flushAllLast (hf : s.cmo.fsmQ = .flushAllLast) (hv : s.cmo.flushReqValidQ = true) :
    s.Updates i := by
  have hcomb : s.cmoOut i = s.cmo.combFlushAllLast (s.cmoIn i) := by
    unfold cmoOut Cmo.comb
    rw [hf]
  simp only [Cmo.combFlushAllLast, hv, if_true] at hcomb
  split_ifs at hcomb <;> constructor <;> rw [hcomb] <;> rfl

/-- The entry that the walk has read is swept by its update. -/
theorem Updates.swept (hu : s.Updates i) (hq : MemCtrl.OnlyCmo s.mem (s.memIn i)) (hc : s.Checked)
    (hset : set = s.cmo.flushReqSetQ) (hw : s.cmo.flushReqWayQ w = true) :
    ((s.step i).mem.dirRam set w).Swept s.cmo.flushReqInvalQ := by
  obtain ⟨hvalid, hdirty, -, -⟩ := hc.flags (i := i) hw
  have hram : (s.step i).mem.dirRam set w = _ := hq.update hu.not_nline hu.not_entry set w
  rw [hram, hset]
  by_cases hup : (s.cmoOut i).dirUpdt = true
  · have hcond : (s.memIn i).dirCmoUpdt = true ∧ s.cmo.flushReqSetQ = (s.memIn i).dirCmoUpdtSet ∧
        (s.memIn i).dirCmoUpdtWay w = true := by
      refine ⟨hup, hu.set.symm, ?_⟩
      show (s.cmoOut i).dirUpdtWay w = true
      rw [hu.way]
      exact hw
    rw [if_pos hcond]
    show (s.cmoOut i).dirUpdtEntry.Swept _
    rw [hu.entry]
    intro hv
    exact ⟨by simpa using hv, rfl⟩
  · have hcond : ¬((s.memIn i).dirCmoUpdt = true ∧
        s.cmo.flushReqSetQ = (s.memIn i).dirCmoUpdtSet ∧
        (s.memIn i).dirCmoUpdtWay w = true) := fun h => hup h.1
    rw [if_neg hcond]
    intro hv
    rw [hu.updt, hvalid, hv, hdirty, Bool.true_and, Bool.or_eq_true, not_or] at hup
    exact ⟨by simpa using hup.2, by simpa using hup.1⟩

/-- The other entries are left as they are. -/
theorem Updates.other (hu : s.Updates i) (hq : MemCtrl.OnlyCmo s.mem (s.memIn i))
    (hne : ¬(set = s.cmo.flushReqSetQ ∧ s.cmo.flushReqWayQ w = true)) :
    (s.step i).mem.dirRam set w = s.mem.dirRam set w := by
  refine (hq.update hu.not_nline hu.not_entry set w).trans ?_
  have hcond : ¬((s.memIn i).dirCmoUpdt = true ∧ set = (s.memIn i).dirCmoUpdtSet ∧
      (s.memIn i).dirCmoUpdtWay w = true) := by
    intro h
    have hset : set = (s.cmoOut i).dirUpdtSet := h.2.1
    have hway : (s.cmoOut i).dirUpdtWay w = true := h.2.2
    rw [hu.set] at hset
    rw [hu.way] at hway
    exact hne ⟨hset, hway⟩
  rw [if_neg hcond]

/-- A cycle with the update of a walk sweeps the entry that is pending, and keeps those that are
swept. -/
theorem Updates.swept_step (hu : s.Updates i) (hq : MemCtrl.OnlyCmo s.mem (s.memIn i))
    (hc : s.Checked)
    (h : ¬ s.cmo.Pending set w → (s.mem.dirRam set w).Swept s.cmo.flushReqInvalQ) :
    ((s.step i).mem.dirRam set w).Swept s.cmo.flushReqInvalQ := by
  by_cases hp : set = s.cmo.flushReqSetQ ∧ s.cmo.flushReqWayQ w = true
  · exact hu.swept hq hc hp.1 hp.2
  · rw [hu.other hq hp]
    exact h fun hpend => hp hpend.2

/-- Nothing is pending. -/
theorem not_pending (h : s.cmo.flushReqValidQ = false) : ¬ s.cmo.Pending set w := by
  intro hp
  have hv := hp.1
  rw [h] at hv
  contradiction

/-- A walk that flushes goes on. -/
theorem SweepNext.step (h : s.SweepNext) (hown : s.Owned) (hf : s.cmo.fsmQ = .flushAllNext)
    (hr : s.miss.refillBusy = false) (hq : MemCtrl.OnlyCmo s.mem (s.memIn i))
    (hram : ∀ set w, Tracks s.cmoSets set (s.mem.dirRam set w)) :
    (s.step i).Sweep := by
  have hw : s.cmo.fsmQ.walks = true := by rw [hf]; rfl
  obtain ⟨v, hv⟩ := h.way
  have hcomb : s.cmoOut i = s.cmo.combFlushAllNext (s.cmoIn i) := by
    unfold cmoOut Cmo.comb
    rw [hf]
  have hfsm : (s.step i).cmo.fsmQ = (s.cmoOut i).fsmD := rfl
  unfold Cmo.combFlushAllNext at hcomb
  unfold Sweep
  by_cases hvalid : s.cmo.flushReqValidQ = true
  · -- the entry that was read is updated
    rw [if_pos hvalid] at hcomb
    have hupd : s.Updates i := updates_flushAllNext hf hvalid
    have hopD : (s.cmoOut i).opD = s.cmo.opQ := by
      rw [hcomb]
      rfl
    have hinvalD : (s.cmoOut i).flushReqInvalD = s.cmo.flushReqInvalQ := by
      rw [hcomb]
      rfl
    have hinval : (s.step i).cmo.flushReqInvalQ = s.cmo.flushReqInvalQ := hinvalD
    have hnot : (s.step i).cmo.flushReqValidQ = false := by
      show (s.cmoOut i).flushReqValidD = false
      rw [hcomb]
    have hway : (s.step i).cmo.wayQ = s.cmo.wayQ := by
      show s.cmo.wayD (s.cmoOut i) = s.cmo.wayQ
      rw [hcomb]
      exact Cmo.wayD_keep rfl rfl hv
    have hset : (s.step i).cmo.setQ = s.cmo.setQ := by
      show s.cmo.setD (s.cmoIn i) (s.cmoOut i) = s.cmo.setQ
      rw [hcomb]
      rfl
    have hfsm' : (s.step i).cmo.fsmQ = .flushAllNext := by
      rw [hfsm, hcomb]
      exact hf
    rw [hfsm']
    refine ⟨flushes_step hopD hinvalD h.op, ⟨v, hway.trans hv⟩, ?_, ?_, ?_⟩
    · rw [sweepMax_step hown hw hr hopD, hset]
      exact h.le
    · intro set w hp _
      have hp' : s.cmo.Past set w := by
        unfold Cmo.Past at hp ⊢
        rw [hway, hset] at hp
        exact hp
      rw [hinval]
      exact hupd.swept_step hq (h.checked hvalid) (h.swept set w hp')
    · intro hv'
      rw [hnot] at hv'
      contradiction
  · rw [if_neg hvalid] at hcomb
    rw [Bool.not_eq_true] at hvalid
    have hswept (set : Fin c.sets) (w : Fin c.ways) (hp : s.cmo.Past set w) :
        (s.mem.dirRam set w).Swept s.cmo.flushReqInvalQ :=
      h.swept set w hp (not_pending hvalid)
    by_cases hok : s.cmo.flushReqWok (s.cmoIn i) = true
    · rw [if_pos hok] at hcomb
      by_cases hlast : (s.cmo.setLast (s.cmoIn i) && s.cmo.wayLast) = true
      · -- the last entry of the walk is read
        rw [if_pos hlast] at hcomb
        obtain ⟨hchecked, hram'⟩ := checked_step hq hv hcomb
        have hopD : (s.cmoOut i).opD = s.cmo.opQ := by
          rw [hcomb]
          rfl
        have hinvalD : (s.cmoOut i).flushReqInvalD = s.cmo.flushReqInvalQ := by
          rw [hcomb]
          rfl
        have hinval : (s.step i).cmo.flushReqInvalQ = s.cmo.flushReqInvalQ := hinvalD
        rw [Bool.and_eq_true, setLast_of_flushesAll h.op, decide_eq_true_eq] at hlast
        rw [hfsm, hcomb]
        refine ⟨flushes_step hopD hinvalD h.op, ?_, fun _ => hchecked⟩
        intro set w hnp
        rw [hinval, hram']
        by_cases hle : set ≤ s.cmo.setQ
        · rcases Cmo.past_of_last hv hlast.2 hle with hp | hp
          · exact hswept set w hp
          · exact absurd (pending_check hcomb hp) hnp
        · rw [not_le, hlast.1] at hle
          exact swept_of_tracks h.op (hram set w) (.inl hle)
      · rw [if_neg hlast] at hcomb
        have hcomb' : s.cmoOut i = { s.cmo.checkEntry s.cmo.default with fsmD := .flushAllNext } := by
          rw [hcomb, ← hf]
          rfl
        have hfsm' : (s.step i).cmo.fsmQ = .flushAllNext := by rw [hfsm, hcomb']
        rw [hfsm']
        exact sweepNext_of_check hown hw hr hq h.op hv h.le hswept hcomb'
    · rw [if_neg hok] at hcomb
      obtain ⟨hway, hset, hram'⟩ := step_default (f := s.cmo.fsmQ) hq hv hcomb
      have hopD : (s.cmoOut i).opD = s.cmo.opQ := by
        rw [hcomb]
        rfl
      have hinvalD : (s.cmoOut i).flushReqInvalD = s.cmo.flushReqInvalQ := by
        rw [hcomb]
        rfl
      have hinval : (s.step i).cmo.flushReqInvalQ = s.cmo.flushReqInvalQ := hinvalD
      have hnot : (s.step i).cmo.flushReqValidQ = false := by
        show (s.cmoOut i).flushReqValidD = false
        rw [hcomb]
        exact hvalid
      have hfsm' : (s.step i).cmo.fsmQ = .flushAllNext := by
        rw [hfsm, hcomb]
        exact hf
      rw [hfsm']
      refine ⟨flushes_step hopD hinvalD h.op, ⟨v, hway.trans hv⟩, ?_, ?_, ?_⟩
      · rw [sweepMax_step hown hw hr hopD, hset]
        exact h.le
      · intro set w hp _
        have hp' : s.cmo.Past set w := by
          unfold Cmo.Past at hp ⊢
          rw [hway, hset] at hp
          exact hp
        rw [hinval, hram']
        exact hswept set w hp'
      · intro hv'
        rw [hnot] at hv'
        contradiction

/-- The end of a walk that flushes: every entry is swept after a cycle in which none is read. -/
theorem SweepLast.swept_step (h : s.SweepLast) (hf : s.cmo.fsmQ = .flushAllLast)
    (hq : MemCtrl.OnlyCmo s.mem (s.memIn i)) (set : Fin c.sets) (w : Fin c.ways) :
    ((s.step i).mem.dirRam set w).Swept s.cmo.flushReqInvalQ := by
  have hcomb : s.cmoOut i = s.cmo.combFlushAllLast (s.cmoIn i) := by
    unfold cmoOut Cmo.comb
    rw [hf]
  unfold Cmo.combFlushAllLast at hcomb
  by_cases hvalid : s.cmo.flushReqValidQ = true
  · exact (updates_flushAllLast hf hvalid).swept_step hq (h.checked hvalid) (h.swept set w)
  · rw [Bool.not_eq_true] at hvalid
    simp only [hvalid, Bool.false_eq_true, if_false] at hcomb
    have hram : (s.step i).mem.dirRam = s.mem.dirRam := by
      refine hq.keep ?_ ?_ ?_
      · show (s.cmoOut i).dirCheckNline = false
        rw [hcomb]
        split_ifs <;> rfl
      · show (s.cmoOut i).dirCheckEntry = false
        rw [hcomb]
        split_ifs <;> rfl
      · show (s.cmoOut i).dirUpdt = false
        rw [hcomb]
        split_ifs <;> rfl
    rw [hram]
    exact h.swept set w (not_pending hvalid)

theorem SweepLast.step (h : s.SweepLast) (hf : s.cmo.fsmQ = .flushAllLast)
    (hq : MemCtrl.OnlyCmo s.mem (s.memIn i)) : (s.step i).Sweep := by
  have hcomb : s.cmoOut i = s.cmo.combFlushAllLast (s.cmoIn i) := by
    unfold cmoOut Cmo.comb
    rw [hf]
  have hopD : (s.cmoOut i).opD = s.cmo.opQ := by
    rw [hcomb, Cmo.combFlushAllLast]
    split_ifs <;> rfl
  have hinvalD : (s.cmoOut i).flushReqInvalD = s.cmo.flushReqInvalQ := by
    rw [hcomb, Cmo.combFlushAllLast]
    split_ifs <;> rfl
  have hinval : (s.step i).cmo.flushReqInvalQ = s.cmo.flushReqInvalQ := hinvalD
  have hnot : (s.step i).cmo.flushReqValidQ = false := by
    show (s.cmoOut i).flushReqValidD = false
    rw [hcomb, Cmo.combFlushAllLast]
    split_ifs <;> rfl
  have hfsm : (s.step i).cmo.fsmQ = .flushAllLast ∨ (s.step i).cmo.fsmQ = .idle := by
    have hstep : (s.step i).cmo.fsmQ = (s.cmoOut i).fsmD := rfl
    rw [hstep, hcomb, Cmo.combFlushAllLast]
    split_ifs
    · exact .inr rfl
    · exact .inr rfl
    · exact .inl hf
    · exact .inl hf
  unfold Sweep
  rcases hfsm with hfsm | hfsm
  · rw [hfsm]
    refine ⟨flushes_step hopD hinvalD h.op, ?_, ?_⟩
    · intro set w _
      rw [hinval]
      exact h.swept_step hf hq set w
    · intro hv
      rw [hnot] at hv
      contradiction
  · rw [hfsm]
    trivial

/-! ## The steps of the other walks -/

/-- What the handler writes when it invalidates a set. -/
theorem invalSet_step (hf : s.cmo.fsmQ = .invalSet) (hop : s.cmo.InvalsAll)
    (hq : MemCtrl.OnlyCmo s.mem (s.memIn i)) (set : Fin c.sets) (w : Fin c.ways) :
    (s.step i).mem.dirRam set w =
      if set = s.cmo.setQ then .zero else s.mem.dirRam set w := by
  have hcomb : s.cmoOut i = s.cmo.combInvalSet (s.cmoIn i) := by
    unfold cmoOut Cmo.comb
    rw [hf]
  have hout : (s.cmoOut i).dirCheckNline = false ∧ (s.cmoOut i).dirCheckEntry = false ∧
      (s.cmoOut i).dirUpdt = true ∧ (s.cmoOut i).dirUpdtSet = s.cmo.setQ ∧
      ((s.cmoOut i).dirUpdtWay = fun _ => true) ∧ (s.cmoOut i).dirUpdtEntry = .zero := by
    rw [hcomb, Cmo.combInvalSet]
    rcases hop with hop | hop <;> rw [hop] <;> dsimp only <;> split_ifs <;>
      exact ⟨rfl, rfl, rfl, rfl, rfl, rfl⟩
  obtain ⟨hn, he, hu, hset, hway, hentry⟩ := hout
  refine (hq.update hn he set w).trans ?_
  have hset' : (s.memIn i).dirCmoUpdtSet = s.cmo.setQ := hset
  have hway' : (s.memIn i).dirCmoUpdtWay w = true := congrFun hway w
  have hentry' : (s.memIn i).dirCmoUpdtEntry = .zero := hentry
  have hu' : (s.memIn i).dirCmoUpdt = true := hu
  rw [hset', hway', hentry', hu']
  simp

theorem SweepInval.step (h : s.SweepInval) (hown : s.Owned) (hf : s.cmo.fsmQ = .invalSet)
    (hr : s.miss.refillBusy = false) (hq : MemCtrl.OnlyCmo s.mem (s.memIn i)) :
    (s.step i).Sweep := by
  have hop := h.op
  have hw : s.cmo.fsmQ.walks = true := by rw [hf]; rfl
  have hcomb : s.cmoOut i = s.cmo.combInvalSet (s.cmoIn i) := by
    unfold cmoOut Cmo.comb
    rw [hf]
  have hfsm : (s.step i).cmo.fsmQ = (s.cmoOut i).fsmD := rfl
  have hsets := cmoSets_step_of_walk (i := i) hown hw hr
  have hlast : s.cmo.setLast (s.cmoIn i) = decide (s.cmo.setQ = s.cmoSets.validMaxQ) := by
    have hne : s.cmo.opQ ≠ .cmoFlushAll := by
      rcases hop with hop | hop <;> simp [hop]
    rw [Cmo.setLast, if_neg hne]
    rfl
  unfold Sweep
  by_cases hl : s.cmo.setLast (s.cmoIn i) = true
  · have hidle : (s.step i).cmo.fsmQ = .idle := by
      rw [hfsm, hcomb, Cmo.combInvalSet]
      rcases hop with hop | hop <;> rw [hop] <;> dsimp only <;> rw [if_pos hl] <;> rfl
    rw [hidle]
    trivial
  · have hout : (s.cmoOut i).fsmD = .invalSet ∧ (s.cmoOut i).setIncr = true ∧
        (s.cmoOut i).invalSetReset = false ∧ (s.cmoOut i).flushSetReset = false ∧
        (s.cmoOut i).opD = s.cmo.opQ := by
      rw [hcomb, Cmo.combInvalSet]
      rcases hop with hop | hop <;> rw [hop] <;> dsimp only <;> rw [if_neg hl] <;>
        exact ⟨hf, rfl, rfl, rfl, hop⟩
    rw [hlast, decide_eq_true_eq] at hl
    have hlt := lt_of_le_of_ne h.le hl
    have hset : (s.step i).cmo.setQ.val = s.cmo.setQ.val + 1 := by
      show (s.cmo.setD (s.cmoIn i) (s.cmoOut i)).val = _
      have := Fin.lt_def.1 hlt
      have := s.cmoSets.validMaxQ.isLt
      rw [Cmo.setD, hout.2.1, hout.2.2.1, hout.2.2.2.1, hlast, decide_eq_false hl,
        if_neg Bool.false_ne_true, if_neg Bool.false_ne_true, if_pos rfl,
        if_neg Bool.false_ne_true]
      exact Nat.mod_eq_of_lt (by omega)
    have hop' : (s.step i).cmo.opQ = s.cmo.opQ := hout.2.2.2.2
    rw [hfsm, hout.1]
    refine .inl ⟨?_, ?_, ?_⟩
    · unfold Cmo.InvalsAll
      rw [hop']
      exact hop
    · rw [hsets, Fin.le_def, hset]
      exact Fin.lt_def.1 hlt
    · intro set hlt' w
      rw [invalSet_step hf hop hq]
      by_cases heq : set = s.cmo.setQ
      · rw [if_pos heq]
        rfl
      · rw [if_neg heq]
        refine h.swept set ?_ w
        rw [Fin.lt_def, hset] at hlt'
        have : set.val ≠ s.cmo.setQ.val := fun h => heq (Fin.ext h)
        rw [Fin.lt_def]
        omega

/-- A handler that is idle goes on to wait, with the first way selected. -/
theorem sweep_idle (hf : s.cmo.fsmQ = .idle) : (s.step i).Sweep := by
  have hstep : (s.step i).cmo.fsmQ = (s.cmoOut i).fsmD := rfl
  have hway : (s.step i).cmo.wayQ = s.cmo.wayD (s.cmoOut i) := rfl
  have hcomb : s.cmoOut i = s.cmo.combIdle (s.cmoIn i) := by
    unfold cmoOut Cmo.comb
    rw [hf]
  have hcases : (s.cmoOut i).fsmD = .idle ∨ (s.cmoOut i).fsmD = .fenceWaitWbufRtabEmpty ∨
      ((s.cmoOut i).fsmD = .waitMshrRtabEmpty ∧ (s.cmoOut i).wayReset = true) := by
    rw [hcomb]
    simp only [Cmo.combIdle, Cmo.default]
    split_ifs
    · exact .inr (.inl rfl)
    · exact .inl hf
    · exact .inr (.inr ⟨rfl, rfl⟩)
    · exact .inl hf
    · exact .inl hf
  unfold Sweep
  rcases hcases with hd | hd | ⟨hd, hreset⟩
  · rw [hstep, hd]
    trivial
  · rw [hstep, hd]
    trivial
  · rw [hstep, hd]
    show (s.step i).cmo.wayQ = Cmo.wayFirst
    rw [hway]
    unfold Cmo.wayD
    by_cases hone : c.ways = 1
    · rw [if_pos hone]
      exact Cmo.wayFirst_of_one hone
    · rw [if_neg hone, if_pos hreset]

/-- The handler looks the line of the operation up. -/
theorem looksUp_step (hq : MemCtrl.OnlyCmo s.mem (s.memIn i))
    (hn : (s.cmoOut i).dirCheckNline = true) (hl : (s.cmoOut i).nlineD = s.cmo.nlineQ) :
    (s.step i).LooksUp := by
  have hcheck : (s.memIn i).dirCmoCheckNline = true := hn
  have hnline : (s.step i).cmo.nlineQ = s.cmo.nlineQ := hl
  obtain ⟨hentry, hram⟩ := hq.checkNline hcheck
  intro w
  rw [hnline]
  exact (hentry w).trans (congrFun (congrFun hram.symm _) w)

/-- The invalidation of one line begins with its lookup. -/
theorem sweep_invalCheckNline (hf : s.cmo.fsmQ = .invalCheckNline) (h : s.cmo.InvalsNline)
    (hq : MemCtrl.OnlyCmo s.mem (s.memIn i)) : (s.step i).Sweep := by
  have hcomb : s.cmoOut i = { s.cmo.default with dirCheckNline := true, fsmD := .invalSet } := by
    unfold cmoOut Cmo.comb
    rw [hf]
  have hfsm : (s.step i).cmo.fsmQ = .invalSet := by
    show (s.cmoOut i).fsmD = .invalSet
    rw [hcomb]
  have hop : (s.step i).cmo.opQ = s.cmo.opQ := by
    show (s.cmoOut i).opD = s.cmo.opQ
    rw [hcomb]
    rfl
  unfold Sweep
  rw [hfsm]
  refine .inr ⟨?_, looksUp_step hq ?_ ?_⟩
  · unfold Cmo.InvalsNline
    rw [hop]
    exact h
  · rw [hcomb]
  · rw [hcomb]
    rfl

/-- The invalidation of one line is over in one cycle. -/
theorem sweep_invalNline (hf : s.cmo.fsmQ = .invalSet) (h : s.cmo.InvalsNline) :
    (s.step i).Sweep := by
  have hcomb : s.cmoOut i = s.cmo.combInvalSet (s.cmoIn i) := by
    unfold cmoOut Cmo.comb
    rw [hf]
  have hidle : (s.step i).cmo.fsmQ = .idle := by
    show (s.cmoOut i).fsmD = .idle
    rw [hcomb, Cmo.combInvalSet]
    rcases h with hop | hop <;> rw [hop] <;> rfl
  unfold Sweep
  rw [hidle]
  trivial

/-- The flush of one line begins with its lookup. -/
theorem sweep_flushNlineFirst (hf : s.cmo.fsmQ = .flushNlineFirst) (h : s.cmo.FlushesNline)
    (hq : MemCtrl.OnlyCmo s.mem (s.memIn i)) : (s.step i).Sweep := by
  have hcomb : s.cmoOut i = s.cmo.combFlushNlineFirst (s.cmoIn i) := by
    unfold cmoOut Cmo.comb
    rw [hf]
  have hstep : (s.step i).cmo.fsmQ = (s.cmoOut i).fsmD := rfl
  have hop : (s.cmoOut i).opD = s.cmo.opQ := by
    rw [hcomb, Cmo.combFlushNlineFirst]
    split_ifs <;> rfl
  have hinval : (s.cmoOut i).flushReqInvalD = s.cmo.flushReqInvalQ := by
    rw [hcomb, Cmo.combFlushNlineFirst]
    split_ifs <;> rfl
  have hfl : (s.step i).cmo.FlushesNline := flushes_step hop hinval h
  unfold Cmo.combFlushNlineFirst at hcomb
  unfold Sweep
  split_ifs at hcomb with hwb hok hinvalQ
  · have hvalid : (s.step i).cmo.flushReqValidQ = true := by
      show (s.cmoOut i).flushReqValidD = true
      rw [hcomb]
    rw [hstep, hcomb]
    refine ⟨hfl, fun _ => looksUp_step hq ?_ ?_, fun hv => ?_⟩
    · rw [hcomb]
    · rw [hcomb]
      rfl
    · rw [hvalid] at hv
      contradiction
  · have hd : (s.cmoOut i).fsmD = .flushNlineFirst := by
      rw [hcomb]
      exact hf
    rw [hstep, hd]
    exact hfl
  · -- without write-back the line is invalidated
    have hop' : (s.step i).cmo.opQ = .cmoFlushInvalNline :=
      (hfl.resolve_left fun hx => hwb hx.2.2).1
    rw [hstep, hcomb]
    exact .inr hop'
  · rw [hstep, hcomb]
    trivial

/-- A line that is looked up is swept by its update. -/
theorem SweepLine.swept_step (h : s.SweepLine) (hf : s.cmo.fsmQ = .flushNlineNext)
    (hq : MemCtrl.OnlyCmo s.mem (s.memIn i)) (w : Fin c.ways)
    (htag : ((s.step i).mem.dirRam s.cmo.nlineQ.set w).tag = s.cmo.nlineQ.tag) :
    ((s.step i).mem.dirRam s.cmo.nlineQ.set w).Swept s.cmo.flushReqInvalQ := by
  have hcomb : s.cmoOut i = s.cmo.combFlushNlineNext (s.cmoIn i) := by
    unfold cmoOut Cmo.comb
    rw [hf]
  unfold Cmo.combFlushNlineNext at hcomb
  have hn : (s.cmoOut i).dirCheckNline = false ∧ (s.cmoOut i).dirCheckEntry = false := by
    rw [hcomb]
    split_ifs <;> exact ⟨rfl, rfl⟩
  have hram : (s.step i).mem.dirRam s.cmo.nlineQ.set w = _ :=
    hq.update hn.1 hn.2 s.cmo.nlineQ.set w
  by_cases hvalid : s.cmo.flushReqValidQ = true
  · simp only [hvalid, if_true] at hcomb
    have hout : (s.cmoOut i).dirUpdt = Cmo.checkNlineHit (s.cmoIn i) ∧
        (s.cmoOut i).dirUpdtSet = s.cmo.nlineQ.set ∧
        (s.cmoOut i).dirUpdtWay = (s.cmoIn i).dirCheckNlineHitWay ∧
        (s.cmoOut i).dirUpdtEntry.valid = !s.cmo.flushReqInvalQ ∧
        (s.cmoOut i).dirUpdtEntry.dirty = false := by
      rw [hcomb]
      split_ifs <;> exact ⟨rfl, rfl, rfl, rfl, rfl⟩
    obtain ⟨hu, hset, hway, hv, hd⟩ := hout
    by_cases hhit : s.mem.hitWay s.cmo.nlineQ.tag w = true
    · have hcond : (s.memIn i).dirCmoUpdt = true ∧ s.cmo.nlineQ.set = (s.memIn i).dirCmoUpdtSet ∧
          (s.memIn i).dirCmoUpdtWay w = true := by
        refine ⟨?_, hset.symm, ?_⟩
        · show (s.cmoOut i).dirUpdt = true
          rw [hu, Cmo.checkNlineHit, any_eq_true]
          exact ⟨w, hhit⟩
        · show (s.cmoOut i).dirUpdtWay w = true
          rw [hway]
          exact hhit
      rw [hram, if_pos hcond]
      intro hv'
      have hv'' : (s.cmoOut i).dirUpdtEntry.valid = true := hv'
      rw [hv] at hv''
      exact ⟨by simpa using hv'', hd⟩
    · have hcond : ¬((s.memIn i).dirCmoUpdt = true ∧
          s.cmo.nlineQ.set = (s.memIn i).dirCmoUpdtSet ∧ (s.memIn i).dirCmoUpdtWay w = true) := by
        intro hc
        have hc' : (s.cmoOut i).dirUpdtWay w = true := hc.2.2
        rw [hway] at hc'
        exact hhit hc'
      rw [hram, if_neg hcond] at htag ⊢
      intro hv'
      rw [MemCtrl.hitWay, h.looked hvalid w, hv', htag] at hhit
      simp at hhit
  · rw [Bool.not_eq_true] at hvalid
    simp only [hvalid, Bool.false_eq_true, if_false] at hcomb
    have hcond : ¬((s.memIn i).dirCmoUpdt = true ∧
        s.cmo.nlineQ.set = (s.memIn i).dirCmoUpdtSet ∧ (s.memIn i).dirCmoUpdtWay w = true) := by
      intro hc
      have hc' : (s.cmoOut i).dirUpdt = true := hc.1
      rw [hcomb] at hc'
      simp only [Cmo.done, Cmo.default] at hc'
      split_ifs at hc'
    rw [hram, if_neg hcond] at htag ⊢
    exact h.swept hvalid w htag

theorem SweepLine.step (h : s.SweepLine) (hf : s.cmo.fsmQ = .flushNlineNext)
    (hq : MemCtrl.OnlyCmo s.mem (s.memIn i)) : (s.step i).Sweep := by
  have hcomb : s.cmoOut i = s.cmo.combFlushNlineNext (s.cmoIn i) := by
    unfold cmoOut Cmo.comb
    rw [hf]
  have hstep : (s.step i).cmo.fsmQ = (s.cmoOut i).fsmD := rfl
  have hop : (s.cmoOut i).opD = s.cmo.opQ := by
    rw [hcomb, Cmo.combFlushNlineNext]
    split_ifs <;> rfl
  have hinval : (s.cmoOut i).flushReqInvalD = s.cmo.flushReqInvalQ := by
    rw [hcomb, Cmo.combFlushNlineNext]
    split_ifs <;> rfl
  have hinval' : (s.step i).cmo.flushReqInvalQ = s.cmo.flushReqInvalQ := hinval
  have hnline : (s.step i).cmo.nlineQ = s.cmo.nlineQ := by
    show (s.cmoOut i).nlineD = s.cmo.nlineQ
    rw [hcomb, Cmo.combFlushNlineNext]
    split_ifs <;> rfl
  have hnot : (s.step i).cmo.flushReqValidQ = false := by
    show (s.cmoOut i).flushReqValidD = false
    rw [hcomb, Cmo.combFlushNlineNext]
    split_ifs <;> rfl
  have hout : (s.cmoOut i).fsmD = .flushNlineNext ∨ (s.cmoOut i).fsmD = .idle := by
    rw [hcomb, Cmo.combFlushNlineNext]
    split_ifs
    · exact .inr rfl
    · exact .inr rfl
    · exact .inl hf
    · exact .inl hf
  unfold Sweep
  rcases hout with hd | hd
  · rw [hstep, hd]
    refine ⟨flushes_step hop hinval h.op, fun hv => ?_, fun _ w htag => ?_⟩
    · rw [hnot] at hv
      contradiction
    · rw [hnline] at htag ⊢
      rw [hinval']
      exact h.swept_step hf hq w htag
  · rw [hstep, hd]
    trivial

/-- A fence ends with the handler idle. -/
theorem sweep_fenceWait (hf : s.cmo.fsmQ = .fenceWaitWbufRtabEmpty) : (s.step i).Sweep := by
  have hstep : (s.step i).cmo.fsmQ = (s.cmoOut i).fsmD := rfl
  have hout : (s.cmoOut i).fsmD = .fenceWaitWbufRtabEmpty ∨ (s.cmoOut i).fsmD = .idle := by
    have hcomb : s.cmoOut i = s.cmo.combFenceWait (s.cmoIn i) := by
      unfold cmoOut Cmo.comb
      rw [hf]
    rw [hcomb, Cmo.combFenceWait]
    split_ifs
    · exact .inr rfl
    · exact .inl hf
  unfold Sweep
  rcases hout with hd | hd <;> rw [hstep, hd] <;> trivial

end Cache

end Hpdcache
