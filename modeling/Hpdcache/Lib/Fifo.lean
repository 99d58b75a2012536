import Mathlib.Data.List.Basic
import Mathlib.Tactic.Common

/-!
# First-in first-out buffers

A buffer of bounded depth as the list of what it holds, oldest first. With `ft` set the buffer is
feedthrough: a word written in an empty buffer can be read in the same cycle, and a full buffer
that is read accepts a word.

* `Fifo.outs_single` — a single word that is written goes out once.
* `Fifo.step_conserve` — what is read and what is kept is what was kept and what is written.
-/

namespace Hw

variable {α : Type*}

namespace Fifo

/-- The buffer accepts a word. -/
def wok (depth : Nat) (ft : Bool) (q : List α) (r : Bool) : Bool :=
  decide (q.length < depth) || (ft && r)

/-- The word to read, if any. -/
def rdata (ft : Bool) (q : List α) (w : Option α) : Option α :=
  match q with
  | x :: _ => some x
  | [] => if ft then w else none

/-- There is a word to read. -/
def rok (ft : Bool) (q : List α) (w : Option α) : Bool :=
  (rdata ft q w).isSome

/-- The word that enters the buffer. -/
def accepted (depth : Nat) (ft : Bool) (q : List α) (w : Option α) (r : Bool) : Option α :=
  if wok depth ft q r then w else none

/-- The content after a cycle: the word read leaves and the word accepted enters, possibly the
same. -/
def step (depth : Nat) (ft : Bool) (q : List α) (w : Option α) (r : Bool) : List α :=
  let q' := q ++ (accepted depth ft q w r).toList
  if r && rok ft q w then q'.tail else q'

/-- The word that leaves the buffer. -/
def popped (ft : Bool) (q : List α) (w : Option α) (r : Bool) : Option α :=
  if r then rdata ft q w else none

variable {depth : Nat} {ft r : Bool} {q : List α} {w : Option α}

@[simp] theorem accepted_none : accepted depth ft q none r = none := by
  simp [accepted]

theorem rok_iff : rok ft q w = true ↔ q ≠ [] ∨ ft = true ∧ w.isSome = true := by
  unfold rok rdata
  cases q <;> cases ft <;> simp

/-- The word to read is the oldest one, or the one that is written. -/
theorem eq_headD {x d : α} (h : rdata ft q w = some x) : x = q.headD (w.getD d) := by
  cases q with
  | nil =>
    cases ft with
    | false => contradiction
    | true =>
      have hw : w = some x := h
      rw [hw]
      rfl
  | cons y ys => exact (Option.some.inj h).symm

/-- An empty buffer in which nothing is written stays empty. -/
@[simp] theorem step_nil_none : step depth ft ([] : List α) none r = [] := by
  simp [step, rok, rdata]

/-- No word is lost, duplicated or reordered. -/
theorem step_conserve :
    (popped ft q w r).toList ++ step depth ft q w r =
      q ++ (accepted depth ft q w r).toList := by
  unfold popped step rok
  cases r with
  | false => simp
  | true =>
    cases q with
    | cons x q => simp [rdata]
    | nil =>
      cases ft with
      | false => simp [rdata]
      | true =>
        cases w with
        | none => simp [rdata, accepted]
        | some x => simp [rdata, accepted, wok]

/-- A buffer that is not feedthrough loses its head when it is read and accepts words when it is
not full. -/
theorem step_eq : step depth false q w r =
    (if r then q.tail else q) ++ (accepted depth false q w r).toList := by
  unfold step
  cases r with
  | false => simp
  | true =>
    cases q with
    | nil => simp [rok, rdata]
    | cons x q => simp [rok, rdata]

/-- A word that waits is read before those that follow it. -/
theorem step_cons (x : α) : step depth ft (x :: q) w r =
    (if r then q else x :: q) ++ (accepted depth ft (x :: q) w r).toList := by
  unfold step
  cases r <;> simp [rok, rdata]

/-- A word that is alone is out of the buffer after a cycle in which it is read. -/
theorem step_none_of_length_le (hq : q.length ≤ 1) : step depth ft q none true = [] := by
  match q, hq with
  | [], _ => simp
  | [x], _ => simp [step_cons]

/-- An empty buffer keeps what is written, unless it goes through. -/
theorem step_nil : step depth ft ([] : List α) w r =
    if ft && r then [] else (accepted depth ft [] w r).toList := by
  unfold step
  cases r with
  | false => simp
  | true =>
    cases ft with
    | false => simp [rok, rdata]
    | true => cases w <;> simp [rok, rdata, accepted, wok]

@[simp] theorem rdata_eq : rdata false q w = q.head? := by
  cases q <;> rfl

/-- The word read and those left are those held. -/
theorem popped_append_tail : (popped false q w r).toList ++ (if r then q.tail else q) = q := by
  unfold popped
  cases r with
  | false => rfl
  | true => cases q <;> rfl

/-! ## A buffer that is read in every cycle -/

/-- The words read in the cycles of a list of writes. -/
def outs (depth : Nat) (ft : Bool) : List α → List (Option α) → List (Option α)
  | _, [] => []
  | q, w :: ws => rdata ft q w :: outs depth ft (step depth ft q w true) ws

theorem outs_none (n : Nat) :
    (outs depth ft [] (List.replicate n (none : Option α))).filterMap id = [] := by
  induction n with
  | zero => rfl
  | succ n ih =>
    rw [List.replicate_succ, outs, step_nil_none]
    have hr : rdata ft ([] : List α) none = none := by cases ft <;> rfl
    rw [hr]
    exact ih

/-- A single word that is written goes out once. -/
theorem outs_single (hd : 0 < depth) (n m : Nat) (x : α) :
    (outs depth ft [] (List.replicate n none ++ some x :: none :: List.replicate m none)).filterMap id
      = [x] := by
  induction n with
  | zero =>
    cases ft with
    | true =>
      have hs : step depth true [] (some x) true = [] := by
        simp [step, rok, rdata, accepted, wok]
      have htail : (outs depth true [] (List.replicate (m + 1) (none : Option α))).filterMap id = [] :=
        outs_none (m + 1)
      rw [List.replicate_succ] at htail
      simp only [List.replicate_zero, List.nil_append, outs, hs, List.filterMap_cons]
      simp only [outs] at htail
      rw [show rdata true ([] : List α) (some x) = some x from rfl]
      exact congrArg (x :: ·) htail
    | false =>
      have hs : step depth false [] (some x) true = [x] := by
        simp [step, rok, rdata, accepted, wok, hd]
      have hs' : step depth false [x] none true = [] := by
        simp [step, rok, rdata]
      have htail : (outs depth false [] (List.replicate m (none : Option α))).filterMap id = [] :=
        outs_none m
      simp only [List.replicate_zero, List.nil_append, outs, hs, hs']
      exact congrArg (x :: ·) htail
  | succ n ih =>
    rw [List.replicate_succ, List.cons_append, outs, step_nil_none]
    have hr : rdata ft ([] : List α) none = none := by cases ft <;> rfl
    rw [hr]
    exact ih

/-- The buffer commutes with a function on its words. -/
theorem outs_map {β : Type*} (f : α → β) (q : List α) (ws : List (Option α)) :
    outs depth ft (q.map f) (ws.map (Option.map f)) = (outs depth ft q ws).map (Option.map f) := by
  induction ws generalizing q with
  | nil => rfl
  | cons w ws ih =>
    have hr : rdata ft (q.map f) (w.map f) = (rdata ft q w).map f := by
      cases q with
      | cons x q => rfl
      | nil => cases ft <;> rfl
    have hs : step depth ft (q.map f) (w.map f) true = (step depth ft q w true).map f := by
      have ha : accepted depth ft (q.map f) (w.map f) true = (accepted depth ft q w true).map f := by
        unfold accepted wok
        rw [List.length_map]
        by_cases h : (decide (q.length < depth) || ft && true) = true
        · rw [if_pos h, if_pos h]
        · rw [if_neg h, if_neg h]
          rfl
      unfold step rok
      rw [hr, ha, Option.isSome_map]
      cases accepted depth ft q w true <;> by_cases h : (rdata ft q w).isSome = true <;>
        simp [h]
    rw [List.map_cons, outs, outs, hr, hs, ih]
    rfl

/-- A feedthrough buffer that can accept a word has room for one after a cycle in which none is
written. -/
theorem length_step_none (hd : 0 < depth) (h : q.length ≤ depth) (hw : wok depth true q r = true) :
    (step depth true q none r).length < depth := by
  cases q with
  | nil =>
    rw [step_nil_none]
    exact hd
  | cons x q =>
    rw [step_cons, accepted_none, Option.toList_none, List.append_nil]
    rw [List.length_cons] at h
    cases r with
    | true =>
      rw [if_pos rfl]
      omega
    | false =>
      rw [if_neg Bool.false_ne_true, List.length_cons]
      simpa [wok] using hw

theorem length_step_le (h : q.length ≤ depth) : (step depth ft q w r).length ≤ depth := by
  unfold step accepted
  cases hw : wok depth ft q r with
  | false =>
    simp only [Bool.false_eq_true, if_false, Option.toList_none, List.append_nil]
    split_ifs
    · simp only [List.length_tail]; omega
    · exact h
  | true =>
    simp only [if_true]
    simp only [wok, Bool.or_eq_true, decide_eq_true_eq, Bool.and_eq_true] at hw
    have hlen : w.toList.length ≤ 1 := by cases w <;> simp
    split_ifs with hr
    · simp only [List.length_tail, List.length_append]
      omega
    · simp only [List.length_append]
      rcases hw with hw | ⟨hft, hread⟩
      · omega
      · -- the buffer is feedthrough and read, so it had nothing to give
        have hrok : rok ft q w = false := by simpa [hread] using hr
        unfold rok rdata at hrok
        cases q with
        | cons x q => simp at hrok
        | nil =>
          cases w with
          | none => simp
          | some x => simp [hft] at hrok

end Fifo

end Hw
