import Mathlib.Data.List.FinRange
import Mathlib.Data.Fin.Basic
import Mathlib.Tactic.Common
import Mathlib.Logic.Function.Basic

/-!
# Bit vectors and priority selection

A bit vector over `n` positions is a function `Fin n → Bool`. This file has the reductions, the
priority encoder that picks the lowest set position, and the one-hot multiplexer.

* `first?_eq_some_iff` — the encoder picks a set position with none set below it.
* `oneHot_prio` — the one-hot encoder sets at most one position.
* `prioFirst_eq_true` — a chain of encoders picks the lowest position of the first class that is
  not empty.
-/

namespace Hw

variable {n : Nat} {α : Type*}

/-- A vector of `n` bits. -/
abbrev Bits (n : Nat) := Fin n → Bool

/-- The OR of all the bits. -/
def any (v : Bits n) : Bool :=
  decide (∃ i, v i = true)

/-- The AND of all the bits. -/
def all (v : Bits n) : Bool :=
  decide (∀ i, v i = true)

theorem any_eq_true {v : Bits n} : any v = true ↔ ∃ i, v i = true := by
  simp [any]

theorem any_eq_false {v : Bits n} : any v = false ↔ ∀ i, v i = false := by
  simp [any]

theorem all_eq_true {v : Bits n} : all v = true ↔ ∀ i, v i = true := by
  simp [all]

theorem all_eq_false {v : Bits n} : all v = false ↔ ∃ i, v i = false := by
  simp [all]

/-! ## Priority encoders -/

/-- The lowest set position. -/
def first? (v : Bits n) : Option (Fin n) :=
  (List.finRange n).find? v

theorem first?_eq_none_iff {v : Bits n} : first? v = none ↔ ∀ i, v i = false := by
  simp [first?, List.find?_eq_none]

theorem first?_mem {v : Bits n} {i : Fin n} (h : first? v = some i) : v i = true :=
  List.find?_some h

/-- The encoder picks a set position with none set below it. -/
theorem first?_eq_some_iff {v : Bits n} {i : Fin n} :
    first? v = some i ↔ v i = true ∧ ∀ j < i, v j = false := by
  rw [first?, ← Fin.find?_eq_find?_finRange, Fin.find?_eq_some_iff]

theorem first?_isSome_iff {v : Bits n} : (first? v).isSome = true ↔ ∃ i, v i = true := by
  rw [Option.isSome_iff_ne_none, ne_eq, first?_eq_none_iff]
  simp

theorem first?_of_forall {v : Bits n} {i : Fin n} (h : ∀ j, v j = true ↔ j = i) :
    first? v = some i := by
  cases hf : first? v with
  | none =>
    have hi := first?_eq_none_iff.1 hf i
    rw [(h i).2 rfl] at hi
    contradiction
  | some j => rw [(h j).1 (first?_mem hf)]

/-- The lowest set position, as a one-hot vector. -/
def prio (v : Bits n) : Bits n :=
  fun i => decide (first? v = some i)

/-- At most one bit is set. -/
def OneHot (v : Bits n) : Prop :=
  ∀ i j, v i = true → v j = true → i = j

theorem prio_eq_true {v : Bits n} {i : Fin n} : prio v i = true ↔ first? v = some i := by
  simp [prio]

theorem oneHot_prio (v : Bits n) : OneHot (prio v) := by
  intro i j hi hj
  rw [prio_eq_true] at hi hj
  exact Option.some.inj (hi.symm.trans hj)

theorem prio_mem {v : Bits n} {i : Fin n} (h : prio v i = true) : v i = true :=
  first?_mem (prio_eq_true.1 h)

theorem any_prio (v : Bits n) : any (prio v) = any v := by
  by_cases h : ∃ i, v i = true
  · have hs := first?_isSome_iff.2 h
    obtain ⟨i, hi⟩ := Option.isSome_iff_exists.1 hs
    rw [any_eq_true.2 h, any_eq_true]
    exact ⟨i, prio_eq_true.2 hi⟩
  · have hf : ∀ i, v i = false := by simpa using h
    rw [any_eq_false.2 hf, any_eq_false]
    intro i
    cases hp : prio v i with
    | false => rfl
    | true => exact absurd (hf i) (by simp [prio_mem hp])

theorem OneHot.first? {v : Bits n} (h : OneHot v) {i : Fin n} (hi : v i = true) :
    first? v = some i :=
  first?_of_forall fun j => ⟨fun hj => h j i hj hi, fun hj => hj ▸ hi⟩

/-- The position of the set bit of a one-hot vector, zero when there is none. -/
def toIndex (h : 0 < n) (v : Bits n) : Fin n :=
  (first? v).getD ⟨0, h⟩

theorem OneHot.toIndex {v : Bits n} (hv : OneHot v) (h : 0 < n) {i : Fin n} (hi : v i = true) :
    toIndex h v = i := by
  simp [Hw.toIndex, hv.first? hi]

/-- The highest set position. -/
def last? (v : Bits n) : Option (Fin n) :=
  (List.finRange n).reverse.find? v

theorem last?_mem {v : Bits n} {i : Fin n} (h : last? v = some i) : v i = true :=
  List.find?_some h

theorem last?_eq_none_iff {v : Bits n} : last? v = none ↔ ∀ i, v i = false := by
  simp [last?, List.find?_eq_none]

theorem OneHot.last? {v : Bits n} (h : OneHot v) {i : Fin n} (hi : v i = true) :
    last? v = some i := by
  cases hl : Hw.last? v with
  | none => rw [last?_eq_none_iff.1 hl i] at hi; contradiction
  | some j => rw [h j i (last?_mem hl) hi]

/-- The binary code of a one-hot vector, zero when no position is set. -/
def toBinary (h : 0 < n) (v : Bits n) : Fin n :=
  (last? v).getD ⟨0, h⟩

theorem OneHot.toBinary {v : Bits n} (hv : OneHot v) (h : 0 < n) {i : Fin n} (hi : v i = true) :
    toBinary h v = i := by
  simp [Hw.toBinary, hv.last? hi]

/-- The one-hot vector of a position. -/
def ofIndex (i : Fin n) : Bits n :=
  fun j => decide (j = i)

@[simp] theorem ofIndex_eq_true {i j : Fin n} : ofIndex i j = true ↔ j = i := by
  simp [ofIndex]

theorem ofIndex_self (i : Fin n) : ofIndex i i = true := by
  simp

theorem ofIndex_of_ne {i j : Fin n} (h : j ≠ i) : ofIndex i j = false := by
  simp [ofIndex, h]

theorem oneHot_ofIndex (j : Fin n) : OneHot (ofIndex j) := by
  intro k l hk hl
  rw [ofIndex_eq_true] at hk hl
  rw [hk, hl]

theorem OneHot.eq_ofIndex {v : Bits n} (h : OneHot v) {i : Fin n} (hi : v i = true) :
    v = ofIndex i := by
  funext j
  rw [Bool.eq_iff_iff, ofIndex_eq_true]
  exact ⟨fun hj => h j i hj hi, fun hj => hj ▸ hi⟩

/-- A multiplexer with a one-hot selection. A single input goes through whatever the selection. -/
def mux (sel : Bits n) (data : Fin n → α) (zero : α) : α :=
  if h : n = 1 then data ⟨0, h ▸ Nat.one_pos⟩
  else
    match first? sel with
    | some i => data i
    | none => zero

theorem mux_of_first? {sel : Bits n} {i : Fin n} (h : first? sel = some i) (data : Fin n → α)
    (zero : α) : mux sel data zero = data i := by
  unfold mux
  split_ifs with h1
  · exact congrArg data (Fin.ext (by have := i.isLt; omega))
  · rw [h]

/-- A multiplexer with one input does not look at the selection. -/
theorem mux_of_single (h : n = 1) (sel : Bits n) (data : Fin n → α) (zero : α) (i : Fin n) :
    mux sel data zero = data i := by
  rw [mux, dif_pos h]
  exact congrArg data (Fin.ext (by have := i.isLt; omega))

theorem OneHot.mux {sel : Bits n} (h : OneHot sel) {i : Fin n} (hi : sel i = true)
    (data : Fin n → α) (zero : α) : mux sel data zero = data i :=
  mux_of_first? (h.first? hi) data zero

@[simp] theorem mux_ofIndex (i : Fin n) (data : Fin n → α) (zero : α) :
    mux (ofIndex i) data zero = data i :=
  (oneHot_ofIndex i).mux (ofIndex_self i) data zero

/-! ## Selection by classes -/

/-- The lowest position of the first class that is not empty, as a one-hot vector. -/
def prioFirst : List (Bits n) → Bits n
  | [] => fun _ => false
  | v :: vs => if any v then prio v else prioFirst vs

/-- The position is the lowest one of a class, and every class before is empty. -/
def Picks : List (Bits n) → Fin n → Prop
  | [], _ => False
  | v :: vs, i => (v i = true ∧ ∀ j < i, v j = false) ∨ (∀ j, v j = false) ∧ Picks vs i

theorem prioFirst_eq_true {vs : List (Bits n)} {i : Fin n} :
    prioFirst vs i = true ↔ Picks vs i := by
  induction vs with
  | nil => simp [prioFirst, Picks]
  | cons v vs ih =>
    rw [Picks, ← first?_eq_some_iff, ← prio_eq_true, ← ih, ← any_eq_false, prioFirst]
    cases hv : any v with
    | true => simp
    | false =>
      have hp : prio v i = false := any_eq_false.1 ((any_prio v).trans hv) i
      simp [hp]

theorem oneHot_prioFirst (vs : List (Bits n)) : OneHot (prioFirst vs) := by
  induction vs with
  | nil =>
    intro i j hi
    contradiction
  | cons v vs ih =>
    rw [prioFirst]
    split
    · exact oneHot_prio v
    · exact ih

/-- A selected position is in one of the classes. -/
theorem Picks.mem {vs : List (Bits n)} {i : Fin n} (h : Picks vs i) : ∃ v ∈ vs, v i = true := by
  induction vs with
  | nil => exact absurd h (by simp [Picks])
  | cons v vs ih =>
    obtain ⟨hi, _⟩ | ⟨_, hp⟩ := h
    · exact ⟨v, List.mem_cons_self, hi⟩
    · obtain ⟨u, hu, hi⟩ := ih hp
      exact ⟨u, List.mem_cons_of_mem v hu, hi⟩

/-- A position is selected as soon as one of the classes is not empty. -/
theorem exists_picks {vs : List (Bits n)} {v : Bits n} {i : Fin n} (hv : v ∈ vs)
    (hi : v i = true) : ∃ j, Picks vs j := by
  induction vs with
  | nil => contradiction
  | cons u vs ih =>
    cases hu : first? u with
    | some j => exact ⟨j, Or.inl (first?_eq_some_iff.1 hu)⟩
    | none =>
      have he := first?_eq_none_iff.1 hu
      obtain rfl | hv := List.mem_cons.1 hv
      · rw [he i] at hi
        contradiction
      · obtain ⟨j, hj⟩ := ih hv
        exact ⟨j, Or.inr ⟨he, hj⟩⟩

/-! ## Loops with one active position -/

theorem foldl_eq_of_forall {β : Type*} {f : β → α → β} {l : List α} {b : β}
    (h : ∀ x ∈ l, f b x = b) : l.foldl f b = b := by
  induction l with
  | nil => rfl
  | cons x l ih =>
    rw [List.foldl_cons, h x List.mem_cons_self]
    exact ih fun y hy => h y (List.mem_cons_of_mem x hy)

/-- A loop in which only one position has an effect. -/
theorem foldl_finRange_eq {β : Type*} {f : β → Fin n → β} {b : β} {k : Fin n}
    (h : ∀ j, j ≠ k → ∀ b, f b j = b) : (List.finRange n).foldl f b = f b k := by
  obtain ⟨l, r, hl⟩ := List.append_of_mem (List.mem_finRange k)
  have hnd : (l ++ k :: r).Nodup := hl ▸ List.nodup_finRange n
  have hkl : ∀ x ∈ l, x ≠ k := by
    intro x hx hxk
    exact (List.nodup_append.1 hnd).2.2 x hx k List.mem_cons_self hxk
  have hkr : ∀ x ∈ r, x ≠ k := by
    intro x hx hxk
    exact (List.nodup_cons.1 (List.nodup_append.1 hnd).2.1).1 (hxk ▸ hx)
  rw [hl, List.foldl_append, List.foldl_cons,
    foldl_eq_of_forall fun x hx => h x (hkl x hx) b,
    foldl_eq_of_forall fun x hx => h x (hkr x hx) _]

/-! ## Set and reset of registered bits -/

/-- The next value of a bit with a set and a reset: a set has effect on a low bit only, and a
reset on a high one only. -/
def setRst (q set rst : Bool) : Bool :=
  (!q && set) || (q && !rst)

@[simp] theorem setRst_false_left (set rst : Bool) : setRst false set rst = set := by
  cases set <;> rfl

@[simp] theorem setRst_true_left (set rst : Bool) : setRst true set rst = !rst := by
  cases set <;> rfl

@[simp] theorem setRst_idle (q : Bool) : setRst q false false = q := by
  cases q <;> rfl

end Hw
