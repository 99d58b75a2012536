import Hpdcache.DataUpsize

/-!
# The downsizer

`hpdcache_data_downsize` stands between a writer of wide words and a reader of narrow ones. It
writes a slot as one word and reads it in some. The count of a slot is that of the units that
follow the next one.

* `DataDownsize.step_eq` — a cycle reads and then writes, in another slot.
* `DataDownsize.balance` — the units read and those held are those held before and those written.
* `DataDownsize.counts` — the counters do not wrap.
-/

namespace Hpdcache

open Hw

variable {ω : Type*} {depth words : Nat}

namespace DataDownsize

variable (s : ResizeRegs ω depth words) (i : ResizeIn (Fin words → ω))

/-- A word is written. -/
def wordsSet : Bool := i.w && s.wok

/-- A unit is read. -/
def rexec : Bool := i.r && s.rok

def wordsDec : Bool := rexec s i && decide (0 < (s.wordsQ s.rdptrQ).toNat)

/-- The unit that is read is the last of its slot. -/
def usedDec : Bool := rexec s i && decide ((s.wordsQ s.rdptrQ).toNat = 0)

def rlast : Bool := s.rok && decide ((s.wordsQ s.rdptrQ).toNat = 0)

def rdata (hw : 0 < words) : ω :=
  s.bufQ s.rdptrQ ⟨words - (s.wordsQ s.rdptrQ).toNat - 1, by omega⟩

def step : ResizeRegs ω depth words where
  bufQ := if wordsSet s i then Function.update s.bufQ s.wrptrQ i.wdata else s.bufQ
  wrptrQ := if wordsSet s i then Ring.next s.wrptrQ else s.wrptrQ
  rdptrQ := if usedDec s i then Ring.next s.rdptrQ else s.rdptrQ
  usedQ := s.usedD (wordsSet s i) (usedDec s i)
  wordsQ :=
    let wordsD := if wordsSet s i
      then Function.update s.wordsQ s.wrptrQ (BitVec.ofNat _ (words - 1)) else s.wordsQ
    if wordsDec s i then Function.update wordsD s.rdptrQ (s.wordsQ s.rdptrQ - 1) else wordsD

/-! ## Reading and writing -/

/-- A read on its own. -/
def pop : ResizeRegs ω depth words :=
  if (s.wordsQ s.rdptrQ).toNat = 0 then
    { s with rdptrQ := Ring.next s.rdptrQ, usedQ := s.usedQ - 1 }
  else { s with wordsQ := Function.update s.wordsQ s.rdptrQ (s.wordsQ s.rdptrQ - 1) }

/-- A write on its own. -/
def put (x : Fin words → ω) : ResizeRegs ω depth words :=
  { s with
    bufQ := Function.update s.bufQ s.wrptrQ x
    wrptrQ := Ring.next s.wrptrQ
    usedQ := s.usedQ + 1
    wordsQ := Function.update s.wordsQ s.wrptrQ (BitVec.ofNat _ (words - 1)) }

variable {s i}

/-- A cycle reads a unit and then writes in another slot. -/
theorem step_eq (h : s.WF) : step s i =
    (if wordsSet s i then put (if rexec s i then pop s else s) i.wdata
      else if rexec s i then pop s else s) := by
  cases hr : rexec s i with
  | false =>
    cases hw : wordsSet s i <;> simp [step, usedDec, wordsDec, ResizeRegs.usedD, put, hw, hr]
  | true =>
    cases hw : wordsSet s i with
    | false =>
      by_cases h0 : (s.wordsQ s.rdptrQ).toNat = 0 <;>
        simp [step, usedDec, wordsDec, ResizeRegs.usedD, pop, hw, hr, h0, Nat.pos_iff_ne_zero]
    | true =>
      have hne : s.wrptrQ ≠ s.rdptrQ := by
        rw [wordsSet, Bool.and_eq_true] at hw
        rw [rexec, Bool.and_eq_true] at hr
        exact h.wrptr_ne hw.2 hr.2
      have hcomm := Function.update_comm (f := s.wordsQ) hne (BitVec.ofNat _ (words - 1))
        (s.wordsQ s.rdptrQ - 1)
      have hused : s.usedQ = s.usedQ - 1 + 1 := (BitVec.sub_add_cancel _ _).symm
      by_cases h0 : (s.wordsQ s.rdptrQ).toNat = 0
      · simp only [step, usedDec, wordsDec, ResizeRegs.usedD, pop, put, hw, hr, h0, Nat.lt_irrefl,
          Bool.and_self, Bool.and_false, decide_true, decide_false, if_true, if_false,
          Bool.false_eq_true]
        rw [← hused]
      · simp only [step, usedDec, wordsDec, ResizeRegs.usedD, pop, put, hw, hr, h0,
          Nat.pos_iff_ne_zero, ne_eq, not_false_eq_true, Bool.and_self, Bool.and_false, decide_true,
          decide_false, if_true, if_false, Bool.false_eq_true, hcomm]

/-! ## The units in the slots -/

/-- The units of a slot that are left to read. -/
def left (s : ResizeRegs ω depth words) (j : Fin depth) : List ω :=
  (List.ofFn (s.bufQ j)).drop (words - 1 - (s.wordsQ j).toNat)

/-- The units that the downsizer holds, oldest first. -/
def contents (s : ResizeRegs ω depth words) : List ω :=
  (List.range s.usedQ.toNat).flatMap fun k => left s (Ring.shift s.rdptrQ k)

/-- The first unit left is the one that is read. -/
theorem left_rdptr (hw : 0 < words) (h : s.WF) : left s s.rdptrQ = rdata s hw ::
    (List.ofFn (s.bufQ s.rdptrQ)).drop (words - 1 - (s.wordsQ s.rdptrQ).toNat + 1) := by
  have hlt := h.words s.rdptrQ
  have hidx : words - 1 - (s.wordsQ s.rdptrQ).toNat < (List.ofFn (s.bufQ s.rdptrQ)).length := by
    rw [List.length_ofFn]
    omega
  rw [left, List.drop_eq_getElem_cons hidx, List.getElem_ofFn]
  congr 2
  apply Fin.ext
  show words - 1 - (s.wordsQ s.rdptrQ).toNat = words - (s.wordsQ s.rdptrQ).toNat - 1
  omega

theorem contents_of_rok (hr : s.rok = true) : contents s =
    left s s.rdptrQ ++ (List.range (s.usedQ.toNat - 1)).flatMap
      fun k => left s (Ring.shift s.rdptrQ (k + 1)) := by
  obtain ⟨m, hm⟩ := Nat.exists_eq_succ_of_ne_zero (Nat.ne_of_gt (ResizeRegs.rok_iff.1 hr))
  rw [contents, hm, List.range_succ_eq_map, List.flatMap_cons, Ring.shift_zero, List.flatMap_map]
  rfl

/-- A read takes the oldest unit. -/
theorem contents_pop (hw : 0 < words) (h : s.WF) (hr : s.rok = true) :
    contents s = rdata s hw :: contents (pop s) := by
  have hpos := ResizeRegs.rok_iff.1 hr
  have hle := h.used
  rw [contents_of_rok hr, left_rdptr hw h, List.cons_append]
  congr 1
  unfold pop
  by_cases h0 : (s.wordsQ s.rdptrQ).toNat = 0
  · -- nothing is left in the slot
    have hnil : (List.ofFn (s.bufQ s.rdptrQ)).drop
        (words - 1 - (s.wordsQ s.rdptrQ).toNat + 1) = [] := by
      rw [List.drop_eq_nil_iff, List.length_ofFn]
      omega
    have hpred : (s.usedQ - 1).toNat = s.usedQ.toNat - 1 := by
      have := ResizeRegs.toNat_pred hpos
      omega
    rw [if_pos h0, hnil, List.nil_append, contents, hpred]
    congr 1
    funext k
    rw [← Ring.shift_next]
    rfl
  · have hrok : ResizeRegs.rok { s with
        wordsQ := Function.update s.wordsQ s.rdptrQ (s.wordsQ s.rdptrQ - 1) } = true := hr
    have hpred := ResizeRegs.toNat_pred (Nat.pos_of_ne_zero h0)
    have hlt := h.words s.rdptrQ
    have hidx : words - 1 - (s.wordsQ s.rdptrQ).toNat + 1 =
        words - 1 - (s.wordsQ s.rdptrQ - 1).toNat := by omega
    rw [if_neg h0, contents_of_rok hrok]
    congr 1
    · unfold left
      dsimp only
      rw [Function.update_self, hidx]
    · apply List.flatMap_congr
      intro k hk
      rw [List.mem_range] at hk
      have hne : Ring.shift s.rdptrQ (k + 1) ≠ s.rdptrQ := by
        intro heq
        have hzero : Ring.shift s.rdptrQ (k + 1) = Ring.shift s.rdptrQ 0 := by
          rw [heq, Ring.shift_zero]
        have := Ring.shift_inj (by omega) (by omega) hzero
        omega
      unfold left
      dsimp only
      rw [Function.update_of_ne hne]

theorem wf_pop (h : s.WF) (hr : s.rok = true) : (pop s).WF := by
  have hpos := ResizeRegs.rok_iff.1 hr
  have hpred := ResizeRegs.toNat_pred hpos
  have hle := h.used
  unfold pop
  by_cases h0 : (s.wordsQ s.rdptrQ).toNat = 0
  · rw [if_pos h0]
    refine ⟨?_, ?_, h.words⟩
    · show (s.usedQ - 1).toNat ≤ depth
      omega
    · show s.wrptrQ = Ring.shift (Ring.next s.rdptrQ) (s.usedQ - 1).toNat
      rw [Ring.shift_next, hpred]
      exact h.wrptr
  · rw [if_neg h0]
    refine ⟨h.used, h.wrptr, ?_⟩
    intro j
    show (Function.update s.wordsQ s.rdptrQ (s.wordsQ s.rdptrQ - 1) j).toNat < words
    rw [Function.update_apply]
    split_ifs
    · have hword := ResizeRegs.toNat_pred (Nat.pos_of_ne_zero h0)
      have hlt := h.words s.rdptrQ
      omega
    · exact h.words j

theorem used_pop (hr : s.rok = true) : (pop s).usedQ.toNat ≤ s.usedQ.toNat := by
  have hpred := ResizeRegs.toNat_pred (ResizeRegs.rok_iff.1 hr)
  unfold pop
  split_ifs
  · show (s.usedQ - 1).toNat ≤ _
    omega
  · exact Nat.le_refl _

theorem toNat_words (hw : 0 < words) :
    (BitVec.ofNat (Nat.clog 2 words) (words - 1)).toNat = words - 1 := by
  have hle : words ≤ _ := ResizeRegs.words_le
  rw [BitVec.toNat_ofNat]
  exact Nat.mod_eq_of_lt (by omega)

theorem wf_put (hw : 0 < words) (h : s.WF) (hlt : s.usedQ.toNat < depth) (x : Fin words → ω) :
    (put s x).WF := by
  have hsucc : (s.usedQ + 1).toNat = s.usedQ.toNat + 1 :=
    ResizeRegs.toNat_succ hlt ResizeRegs.depth_lt
  refine ⟨?_, ?_, ?_⟩
  · show (s.usedQ + 1).toNat ≤ depth
    omega
  · show Ring.next s.wrptrQ = Ring.shift s.rdptrQ (s.usedQ + 1).toNat
    rw [hsucc, ← Ring.next_shift, ← h.wrptr]
  · intro j
    show (Function.update s.wordsQ s.wrptrQ (BitVec.ofNat _ (words - 1)) j).toNat < words
    rw [Function.update_apply]
    split_ifs
    · rw [toNat_words hw]
      omega
    · exact h.words j

/-- A write adds the units of its word. -/
theorem contents_put (hw : 0 < words) (h : s.WF) (hlt : s.usedQ.toNat < depth)
    (x : Fin words → ω) : contents (put s x) = contents s ++ List.ofFn x := by
  have hsucc : (put s x).usedQ.toNat = s.usedQ.toNat + 1 :=
    ResizeRegs.toNat_succ hlt ResizeRegs.depth_lt
  have hptr : (put s x).rdptrQ = s.rdptrQ := rfl
  rw [contents, hsucc, hptr, List.range_succ, List.flatMap_append, List.flatMap_singleton]
  congr 1
  · apply List.flatMap_congr
    intro k hk
    rw [List.mem_range] at hk
    have hne : Ring.shift s.rdptrQ k ≠ s.wrptrQ := by
      rw [h.wrptr]
      intro heq
      have := Ring.shift_inj (by omega) hlt heq
      omega
    unfold left put
    dsimp only
    rw [Function.update_of_ne hne, Function.update_of_ne hne]
  · unfold left put
    dsimp only
    rw [← h.wrptr, Function.update_self, Function.update_self, toNat_words hw, Nat.sub_self,
      List.drop_zero]

/-- The units of the word that is written. -/
def written (s : ResizeRegs ω depth words) (i : ResizeIn (Fin words → ω)) : List ω :=
  if wordsSet s i then List.ofFn i.wdata else []

/-- The unit that is read. -/
def read (hw : 0 < words) (s : ResizeRegs ω depth words) (i : ResizeIn (Fin words → ω)) : List ω :=
  if rexec s i then [rdata s hw] else []

/-- A cycle keeps the pointers in step, gives the unit that is read, and takes in those of the word
that is written. -/
theorem balance (hw : 0 < words) (h : s.WF) : (step s i).WF ∧
    read hw s i ++ contents (step s i) = contents s ++ written s i := by
  have hread : (if rexec s i then pop s else s).WF ∧
      (if rexec s i then pop s else s).usedQ.toNat ≤ s.usedQ.toNat ∧
      read hw s i ++ contents (if rexec s i then pop s else s) = contents s := by
    unfold read
    cases hr : rexec s i with
    | false => exact ⟨h, Nat.le_refl _, rfl⟩
    | true =>
      rw [rexec, Bool.and_eq_true] at hr
      exact ⟨wf_pop h hr.2, used_pop hr.2, (contents_pop hw h hr.2).symm⟩
  obtain ⟨hwf, hle, hcontents⟩ := hread
  rw [step_eq h, written]
  cases hset : wordsSet s i with
  | false =>
    refine ⟨hwf, ?_⟩
    rw [if_neg Bool.false_ne_true, if_neg Bool.false_ne_true, List.append_nil]
    exact hcontents
  | true =>
    rw [wordsSet, Bool.and_eq_true] at hset
    have hlt := h.wok_iff.1 hset.2
    refine ⟨wf_put hw hwf (by omega) i.wdata, ?_⟩
    rw [if_pos rfl, if_pos rfl, contents_put hw hwf (by omega), ← List.append_assoc, hcontents]

theorem rok_iff (hw : 0 < words) (h : s.WF) : s.rok = true ↔ contents s ≠ [] := by
  constructor
  · intro hr
    rw [contents_pop hw h hr]
    exact List.cons_ne_nil _ _
  · intro hne
    rw [ResizeRegs.rok_iff]
    by_contra h0
    apply hne
    rw [contents, Nat.eq_zero_of_not_pos h0]
    rfl

/-- **The counters of the downsizer do not wrap.** -/
theorem counts (h : s.WF) :
    (step s i).usedQ.toNat + (usedDec s i).toNat = s.usedQ.toNat + (wordsSet s i).toNat ∧
      ∀ j, ((step s i).wordsQ j).toNat + (wordsDec s i && decide (j = s.rdptrQ)).toNat =
        if wordsSet s i = true ∧ j = s.wrptrQ then words - 1 else (s.wordsQ j).toNat := by
  constructor
  · apply ResizeRegs.toNat_usedD
    · intro hset
      rw [wordsSet, Bool.and_eq_true] at hset
      exact h.wok_iff.1 hset.2
    · intro hdec
      simp only [usedDec, rexec, Bool.and_eq_true] at hdec
      exact ResizeRegs.rok_iff.1 hdec.1.2
  · intro j
    have hw : 0 < words := Nat.lt_of_le_of_lt (Nat.zero_le _) (h.words j)
    have hset : ((if wordsSet s i
        then Function.update s.wordsQ s.wrptrQ (BitVec.ofNat _ (words - 1)) else s.wordsQ) j).toNat =
        if wordsSet s i = true ∧ j = s.wrptrQ then words - 1 else (s.wordsQ j).toNat := by
      cases wordsSet s i with
      | false => simp
      | true =>
        by_cases hj : j = s.wrptrQ
        · simp [hj, toNat_words hw]
        · simp [hj]
    unfold step
    cases hd : wordsDec s i with
    | false =>
      rw [← hset]
      rfl
    | true =>
      simp only [wordsDec, rexec, Bool.and_eq_true, decide_eq_true_eq] at hd
      by_cases hj : j = s.rdptrQ
      · -- the slot that is read is not the one that is written
        have hnot : ¬ (wordsSet s i = true ∧ j = s.wrptrQ) := by
          rintro ⟨hw, heq⟩
          rw [wordsSet, Bool.and_eq_true] at hw
          exact h.wrptr_ne hw.2 hd.1.2 (heq.symm.trans hj)
        rw [if_neg hnot, hj]
        have hpred := ResizeRegs.toNat_pred hd.2
        simpa using hpred
      · rw [← hset]
        simp [hj]

end DataDownsize

end Hpdcache
