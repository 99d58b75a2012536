import Mathlib.Data.Option.Basic
import Mathlib.Tactic.Common

/-!
# Load-reserved and store-conditional

A memory cut into granules, and one reservation on it. A history lists the operations, the newest
first: the loads that reserve a granule, with their outcome, the conditional stores, and the writes,
each with the granules that it touches.

* `Reserved` — the last operation that matters for a granule is a load that reserved it.
* `reserved_iff` — one register is enough to know it.
-/

namespace Hw

variable {γ : Type*}

inductive LrscEvent (γ : Type*)
  | loadReserved (g : γ) (ok : Bool)
  | storeConditional (g : γ)
  | write (touches : γ → Bool)

/-- The operation ends a reservation of the granule `g`, unless it makes it anew. -/
def LrscEvent.breaks (g : γ) : LrscEvent γ → Bool
  | .loadReserved _ _ => true
  | .storeConditional _ => true
  | .write touches => touches g

/-- A load has reserved the granule `g`, and no operation since has ended it. -/
def Reserved (h : List (LrscEvent γ)) (g : γ) : Prop :=
  ∃ post pre, h = post ++ .loadReserved g true :: pre ∧ ∀ e ∈ post, e.breaks g = false

/-- The register after an operation. -/
def LrscEvent.update (r : Option γ) : LrscEvent γ → Option γ
  | .loadReserved g ok => if ok then some g else none
  | .storeConditional _ => none
  | .write touches => r.filter fun g => !touches g

/-- The register after a history. -/
def reservation : List (LrscEvent γ) → Option γ
  | [] => none
  | e :: h => e.update (reservation h)

variable {h : List (LrscEvent γ)} {e : LrscEvent γ} {g : γ}

theorem reserved_cons : Reserved (e :: h) g ↔
    e = .loadReserved g true ∨ e.breaks g = false ∧ Reserved h g := by
  constructor
  · rintro ⟨post, pre, heq, hpost⟩
    cases post with
    | nil => exact .inl (List.cons.inj heq).1
    | cons e' post =>
      obtain ⟨rfl, rfl⟩ := List.cons.inj heq
      refine .inr ⟨hpost e List.mem_cons_self, post, pre, rfl, fun x hx => ?_⟩
      exact hpost x (List.mem_cons_of_mem _ hx)
  · rintro (rfl | ⟨hb, post, pre, rfl, hpost⟩)
    · exact ⟨[], h, rfl, nofun⟩
    · refine ⟨e :: post, pre, rfl, fun x hx => ?_⟩
      rcases List.mem_cons.1 hx with rfl | hx
      · exact hb
      · exact hpost x hx

theorem LrscEvent.update_eq_some (r : Option γ) :
    e.update r = some g ↔ e = .loadReserved g true ∨ e.breaks g = false ∧ r = some g := by
  cases e with
  | loadReserved g' ok => cases ok <;> simp [update, breaks]
  | storeConditional g' => simp [update, breaks]
  | write touches =>
    simp only [update, breaks, Option.filter_eq_some_iff]
    constructor
    · rintro ⟨hr, ht⟩
      exact .inr ⟨by simpa using ht, hr⟩
    · rintro (h | ⟨ht, hr⟩)
      · contradiction
      · exact ⟨hr, by simpa using ht⟩

/-- The register holds a granule exactly when it is reserved. -/
theorem reserved_iff : Reserved h g ↔ reservation h = some g := by
  induction h with
  | nil =>
    refine ⟨?_, nofun⟩
    rintro ⟨post, pre, heq, -⟩
    exact absurd heq (by simp)
  | cons e h ih => rw [reserved_cons, ih, reservation, LrscEvent.update_eq_some]

end Hw
