import Mathlib.Data.Set.Subsingleton
import Mathlib.Tactic.Common

/-!
# Runs of a synchronous system

A system takes one step for each input. A property of the inputs that depends on the state, such
as what the environment promises, is required along the run.

* `run_invariant` — what every step preserves holds at the end of a run.
* `Along.invariant` — what every step along the run preserves holds at its end.
* `Along.of_states` — what every step between states that meet the invariant does holds along a
  run of such states.
* `trace` — what the steps of a run let be seen, in order.
* `Along.take` — the requirement holds along every beginning of the run.
* `Along.conserved` — what every step takes away from what is left is what a run lets be seen.
* `Along.balanced` — what goes in is what comes out and what is left.
* `Along.ranked` — a run lets be seen no more than what the rank falls by.
* `exists_first` — a run that leaves a set of states leaves it for a first time.
* `subsingleton_of_moves` — what a step moves, or makes when there is none, stays alone.
-/

namespace Hw

variable {σ ι ω : Type*}

/-- The state after a list of inputs. -/
def run (step : σ → ι → σ) (s : σ) (is : List ι) : σ :=
  is.foldl step s

/-- What the steps of a run let be seen. -/
def trace (step : σ → ι → σ) (obs : σ → ι → List ω) : σ → List ι → List ω
  | _, [] => []
  | s, i :: is => obs s i ++ trace step obs (step s i) is

/-- Every step of the run meets `P`. -/
def Along (step : σ → ι → σ) (P : σ → ι → Prop) : σ → List ι → Prop
  | _, [] => True
  | s, i :: is => P s i ∧ Along step P (step s i) is

instance Along.decidable (step : σ → ι → σ) (P : σ → ι → Prop) [∀ s i, Decidable (P s i)] :
    ∀ s is, Decidable (Along step P s is)
  | _, [] => isTrue trivial
  | s, i :: is => @instDecidableAnd _ _ _ (Along.decidable step P (step s i) is)

variable {step : σ → ι → σ} {P Q : σ → ι → Prop} {Inv : σ → Prop} {s : σ} {is : List ι}

@[simp] theorem run_nil : run step s [] = s := rfl

@[simp] theorem run_cons (i : ι) : run step s (i :: is) = run step (step s i) is := rfl

theorem run_append (is js : List ι) : run step s (is ++ js) = run step (run step s is) js :=
  List.foldl_append

/-- What is seen in a run is what is seen in its beginning and then in its end. -/
theorem trace_append {obs : σ → ι → List ω} (js : List ι) :
    trace step obs s (is ++ js) = trace step obs s is ++ trace step obs (run step s is) js := by
  induction is generalizing s with
  | nil => rfl
  | cons i is ih =>
    rw [List.cons_append, trace, ih, trace, List.append_assoc]
    rfl

theorem along_append {js : List ι} :
    Along step P s (is ++ js) ↔ Along step P s is ∧ Along step P (run step s is) js := by
  induction is generalizing s with
  | nil => exact ⟨fun h => ⟨trivial, h⟩, fun h => h.2⟩
  | cons i is ih =>
    show P s i ∧ Along step P (step s i) (is ++ js) ↔ _
    rw [ih, ← and_assoc]
    rfl

/-- An invariant that every step preserves holds at the end of a run. -/
theorem run_invariant (hs : Inv s) (hstep : ∀ s i, Inv s → Inv (step s i)) :
    Inv (run step s is) := by
  induction is generalizing s with
  | nil => exact hs
  | cons i is ih => exact ih (hstep s i hs)

/-- What holds of every input holds along a run. -/
theorem along_of_mem {R : ι → Prop} (h : ∀ i ∈ is, R i) : Along step (fun _ i => R i) s is := by
  induction is generalizing s with
  | nil => exact trivial
  | cons i is ih =>
    exact ⟨h i List.mem_cons_self, ih fun j hj => h j (List.mem_cons_of_mem i hj)⟩

/-- An invariant that every step preserves holds along a run. -/
theorem along_invariant (hs : Inv s) (hstep : ∀ s i, Inv s → Inv (step s i)) :
    Along step (fun s _ => Inv s) s is := by
  induction is generalizing s with
  | nil => exact trivial
  | cons i is ih => exact ⟨hs, ih (hstep s i hs)⟩

/-- An invariant that the steps of the run preserve holds at its end. -/
theorem Along.invariant (h : Along step P s is) (hs : Inv s)
    (hstep : ∀ s i, Inv s → P s i → Inv (step s i)) : Inv (run step s is) := by
  induction is generalizing s with
  | nil => exact hs
  | cons i is ih =>
    obtain ⟨hi, his⟩ := h
    exact ih his (hstep s i hs hi)

theorem Along.mono (h : Along step P s is) (hPQ : ∀ s i, P s i → Q s i) : Along step Q s is := by
  induction is generalizing s with
  | nil => exact trivial
  | cons i is ih => exact ⟨hPQ s i h.1, ih h.2⟩

theorem Along.and (hP : Along step P s is) (hQ : Along step Q s is) :
    Along step (fun s i => P s i ∧ Q s i) s is := by
  induction is generalizing s with
  | nil => exact trivial
  | cons i is ih => exact ⟨⟨hP.1, hQ.1⟩, ih hP.2 hQ.2⟩

/-- A step whose end states both meet the invariant meets `Q`: so does every step of a run whose
states meet the invariant. -/
theorem Along.of_states (hP : Along step P s is) (hs : ∀ m, Inv (run step s (is.take m)))
    (hstep : ∀ s i, Inv s → Inv (step s i) → P s i → Q s i) : Along step Q s is := by
  induction is generalizing s with
  | nil => exact trivial
  | cons i is ih =>
    constructor
    · exact hstep s i (hs 0) (hs 1) hP.1
    · apply ih hP.2
      intro m
      exact hs (m + 1)

/-- An invariant that the steps of the run preserve holds along it. -/
theorem Along.strengthen (h : Along step P s is) (hs : Inv s)
    (hstep : ∀ s i, Inv s → P s i → Inv (step s i)) :
    Along step (fun s i => Inv s ∧ P s i) s is := by
  induction is generalizing s with
  | nil => exact trivial
  | cons i is ih => exact ⟨⟨hs, h.1⟩, ih h.2 (hstep s i hs h.1)⟩

/-- When every step lets be seen what it takes away from what is left, a run lets be seen what was
left at its start and no longer is at its end. -/
theorem Along.conserved {obs : σ → ι → List ω} {left : σ → List ω} (h : Along step P s is)
    (hstep : ∀ s i, P s i → obs s i ++ left (step s i) = left s) :
    trace step obs s is ++ left (run step s is) = left s := by
  induction is generalizing s with
  | nil => rfl
  | cons i is ih =>
    rw [trace, run_cons, List.append_assoc, ih h.2]
    exact hstep s i h.1

/-- When every step takes in what it puts on what is left, and lets out what it takes from it, so
does a run. -/
theorem Along.balanced {out inp : σ → ι → List ω} {left : σ → List ω} (h : Along step P s is)
    (hstep : ∀ s i, P s i → out s i ++ left (step s i) = left s ++ inp s i) :
    trace step out s is ++ left (run step s is) = left s ++ trace step inp s is := by
  induction is generalizing s with
  | nil => exact (List.append_nil _).symm
  | cons i is ih =>
    rw [trace, trace, run_cons, List.append_assoc, ih h.2, ← List.append_assoc, hstep s i h.1,
      List.append_assoc]

/-- When the rank falls by as much as a step lets be seen, it falls by as much as a run does. -/
theorem Along.ranked {obs : σ → ι → List ω} {rank : σ → Nat} (h : Along step P s is)
    (hstep : ∀ s i, P s i → rank (step s i) + (obs s i).length ≤ rank s) :
    rank (run step s is) + (trace step obs s is).length ≤ rank s := by
  induction is generalizing s with
  | nil => exact Nat.le_refl _
  | cons i is ih =>
    have hi := hstep s i h.1
    have his := ih h.2
    rw [trace, run_cons, List.length_append]
    omega

/-- What every step lets be seen meets `R`: so does what the run lets be seen. -/
theorem Along.forall_trace {obs : σ → ι → List ω} {R : ω → Prop} (h : Along step P s is)
    (hstep : ∀ s i, P s i → ∀ x ∈ obs s i, R x) : ∀ x ∈ trace step obs s is, R x := by
  induction is generalizing s with
  | nil => exact nofun
  | cons i is ih =>
    intro x hx
    rcases List.mem_append.1 hx with hnow | hlater
    · exact hstep s i h.1 x hnow
    · exact ih h.2 x hlater

theorem trace_map {ω' : Type*} (f : ω → ω') {obs : σ → ι → List ω} :
    (trace step obs s is).map f = trace step (fun s i => (obs s i).map f) s is := by
  induction is generalizing s with
  | nil => rfl
  | cons i is ih =>
    rw [trace, List.map_append, ih]
    rfl

/-- A run that does not stay in a set of states has a beginning that does until its last step. -/
theorem exists_first (h : ¬ (Along step (fun s _ => Inv s) s is ∧ Inv (run step s is))) :
    ∃ n ≤ is.length, Along step (fun s _ => Inv s) s (is.take n) ∧
      ¬ Inv (run step s (is.take n)) := by
  induction is generalizing s with
  | nil => exact ⟨0, Nat.le_refl _, trivial, fun hs => h ⟨trivial, hs⟩⟩
  | cons i is ih =>
    by_cases hs : Inv s
    · obtain ⟨n, hn, halong, hnot⟩ := ih fun his => h ⟨⟨hs, his.1⟩, his.2⟩
      exact ⟨n + 1, Nat.succ_le_succ hn, ⟨hs, halong⟩, hnot⟩
    · exact ⟨0, Nat.zero_le _, trivial, hs⟩

theorem Along.take (h : Along step P s is) (n : Nat) : Along step P s (is.take n) := by
  induction is generalizing s n with
  | nil => simpa using h
  | cons i is ih =>
    cases n with
    | zero => exact trivial
    | succ n => exact ⟨h.1, ih h.2 n⟩

/-- A step moves what is there, or makes a first one: there is one at most. -/
theorem subsingleton_of_moves {α : Type*} {S S' : Set α} (next : α → α) (new : α)
    (hS : S.Subsingleton) (h : ∀ p ∈ S', (∃ q ∈ S, next q = p) ∨ (p = new ∧ S = ∅)) :
    S'.Subsingleton := by
  intro p hp q hq
  rcases h p hp with ⟨p', hp', rfl⟩ | ⟨rfl, he⟩
  · rcases h q hq with ⟨q', hq', rfl⟩ | ⟨-, he⟩
    · rw [hS hp' hq']
    · rw [he] at hp'
      exact hp'.elim
  · rcases h q hq with ⟨q', hq', -⟩ | ⟨rfl, -⟩
    · rw [he] at hq'
      exact hq'.elim
    · rfl

end Hw
