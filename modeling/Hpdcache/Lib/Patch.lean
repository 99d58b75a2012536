import Mathlib.Data.List.Basic
import Mathlib.Logic.Function.Basic
import Mathlib.Tactic.Common

/-!
# Partial writes

A partial write gives the new content of some of the locations of a memory. A memory is a function,
so that two orders of the same writes are compared by the memories that they give.

* `Patch.apply_of_none` — a location that a write does not cover keeps its content.
-/

namespace Hw

variable {α β : Type*}

/-- The new content of the locations that are written. -/
abbrev Patch (α β : Type*) := α → Option β

namespace Patch

/-- The memory after a write. -/
def apply (m : α → β) (p : Patch α β) : α → β := fun a => (p a).getD (m a)

/-- The memory after a list of writes, the first one of the list first. -/
def applyAll (m : α → β) (ps : List (Patch α β)) : α → β := ps.foldl apply m

/-- The write `q` after the write `p`. -/
def overwrite (q p : Patch α β) : Patch α β := fun a => (q a).or (p a)

variable {m : α → β} {p q : Patch α β} {ps qs : List (Patch α β)} {a : α}

theorem apply_of_none (h : p a = none) : apply m p a = m a := by
  simp [apply, h]

@[simp] theorem apply_none : apply m (fun _ => none) = m := rfl

@[simp] theorem applyAll_nil : applyAll m ([] : List (Patch α β)) = m := rfl

@[simp] theorem applyAll_append : applyAll m (ps ++ qs) = applyAll (applyAll m ps) qs := by
  simp [applyAll]

@[simp] theorem applyAll_singleton : applyAll m [p] = apply m p := rfl

end Patch

end Hw
