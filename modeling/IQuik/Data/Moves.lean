import Mathlib.Algebra.Group.Basic
import Mathlib.Logic.Function.Basic

namespace IQuik.Data

/-! # Values moved from one place to another

A map from addresses to values, of which the values at some offsets from
`source` stand at the same offsets from `target`. Which offsets these are
grows while a copy goes on; the places may overlap.
-/

universe u v

variable {α : Type u} {β : Type v} [AddCommGroup α]

def moved (before : α → β) (target source : α) (done : α → Prop) [DecidablePred done] : α → β :=
  fun place => if done (place - target) then before (source + (place - target)) else before place

variable {before : α → β} {target source offset place : α} {done next : α → Prop}
  [DecidablePred done] [DecidablePred next]

theorem moved_offset (copied : done offset) :
    moved before target source done (target + offset) = before (source + offset) := by
  simp [moved, copied]

theorem moved_frame (outside : ¬ done (place - target)) : moved before target source done place = before place :=
  if_neg outside

theorem moved_nothing (nothing : ∀ offset, ¬ done offset) : moved before target source done = before :=
  funext fun _ => moved_frame (nothing _)

theorem moved_congr (same : ∀ offset, done offset ↔ next offset) :
    moved before target source done = moved before target source next := by
  funext place
  simp only [moved, same]

/-- One more value is moved. -/
theorem update_moved [DecidableEq α] (grows : ∀ other, next other ↔ other = offset ∨ done other) :
    Function.update (moved before target source done) (target + offset) (before (source + offset)) =
      moved before target source next := by
  funext place
  by_cases here : place = target + offset
  · subst here
    rw [Function.update_self, moved_offset ((grows offset).mpr (.inl rfl))]
  · have elsewhere : place - target ≠ offset := fun same => here (by rw [← same, add_sub_cancel])
    rw [Function.update_of_ne here]
    simp only [moved, grows, elsewhere, false_or]

end IQuik.Data
