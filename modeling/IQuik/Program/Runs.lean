import Mathlib.Computability.StateTransition

namespace IQuik.Program

open StateTransition

/-! # Runs of a step function

What a run comes to, with the proof that it gets there.
-/

universe u

variable {σ : Type u} {step : σ → Option σ} {P Q : σ → Prop} {start next : σ}

/-- What every step keeps, every run keeps. -/
theorem reaches_keeps (keeps : ∀ state next, step state = some next → P state → P next)
    (reaches : Reaches step start next) (first : P start) : P next := by
  induction reaches with
  | refl => exact first
  | tail _ last ih => exact keeps _ _ last ih

/-- The run from `start` comes to a state in `Q`. -/
def Eventually (step : σ → Option σ) (Q : σ → Prop) (start : σ) : Prop :=
  ∃ finish, Reaches step start finish ∧ Q finish

namespace Eventually

theorem now (holds : Q start) : Eventually step Q start := ⟨start, .refl, holds⟩

theorem after (stepped : step start = some next) (later : Eventually step Q next) :
    Eventually step Q start := by
  obtain ⟨finish, reaches, holds⟩ := later
  exact ⟨finish, reaches.head stepped, holds⟩

theorem bind (first : Eventually step P start) (rest : ∀ state, P state → Eventually step Q state) :
    Eventually step Q start := by
  obtain ⟨middle, reached, holds⟩ := first
  obtain ⟨finish, reaches, goal⟩ := rest middle holds
  exact ⟨finish, reached.trans reaches, goal⟩

/-- A loop: `Inv done` holds after `done` rounds of it. -/
theorem rounds (Inv : Nat → σ → Prop) (count : Nat)
    (round : ∀ done < count, ∀ state, Inv done state → Eventually step (Inv (done + 1)) state)
    (first : Inv 0 start) : Eventually step (Inv count) start := by
  induction count with
  | zero => exact now first
  | succ count ih =>
      have before := ih fun done early => round done (Nat.lt_succ_of_lt early)
      exact before.bind (round count (Nat.lt_succ_self count))

/-- A run that comes to a state with no step ends there. -/
theorem ends (eventually : Eventually step Q start) (stuck : ∀ state, Q state → step state = none) :
    ∃ finish ∈ eval step start, Q finish := by
  obtain ⟨finish, reaches, holds⟩ := eventually
  exact ⟨finish, mem_eval.mpr ⟨reaches, stuck finish holds⟩, holds⟩

end Eventually

end IQuik.Program
