import IQuik.Program.Outcome

namespace IQuik.Program

universe u v w x y

/-! # Programs that keep a record

A program can be written once more with a state that records what happened, and
with error codes that say more. Without its record the second program is the
first one, unless it gives up with a code that is not one of the first program's.
-/

namespace Outcome

variable {ε : Type u} {δ : Type x} {σ : Type v} {τ : Type y} {α : Type w}

/-- An outcome that keeps a record, and the one that it is without it. -/
def Traces (lost : ε → Prop) (codes : ε → δ) (erase : σ → τ) (traced : Outcome ε σ α)
    (plain : Outcome δ τ α) : Prop :=
  match traced with
  | .ok value after => plain = .ok value (erase after)
  | .error code after => lost code ∨ plain = .error (codes code) (erase after)
  | .fault => plain = .fault
  | .undefined => plain = .undefined
  | .unfinished => plain = .unfinished

/-- An outcome that is not given up is the plain one. -/
theorem Traces.exact {lost : ε → Prop} {codes : ε → δ} {erase : σ → τ} {traced : Outcome ε σ α}
    {plain : Outcome δ τ α} (traces : traced.Traces lost codes erase plain)
    (kept : ∀ code after, traced = .error code after → ¬lost code) :
    traced.Traces (fun _ => False) codes erase plain := by
  cases traced with
  | error code after => exact .inr (traces.resolve_left (kept code after rfl))
  | ok value after => exact traces
  | fault => exact traces
  | undefined => exact traces
  | unfinished => exact traces

end Outcome

namespace Prog

variable {ε : Type u} {δ : Type x} {σ : Type v} {τ : Type y} {α β : Type w}

/-- Gives every error code of `program` as one of another kind. -/
def recode (code : δ → ε) (program : Prog δ τ α) : Prog ε τ α := fun state =>
  match program state with
  | .ok value after => .ok value after
  | .error failed after => .error (code failed) after
  | .fault => .fault
  | .undefined => .undefined
  | .unfinished => .unfinished

/-- `program` is `plain` with a record. -/
def Traces (lost : ε → Prop) (codes : ε → δ) (erase : σ → τ) (program : Prog ε σ α)
    (plain : Prog δ τ α) : Prop :=
  ∀ state, (program state).Traces lost codes erase (plain (erase state))

variable {lost : ε → Prop} {codes : ε → δ} {erase : σ → τ} {program first : Prog ε σ α}
  {plain begin : Prog δ τ α}

theorem Traces.pure (value : α) : Traces lost codes erase (pure value) (pure value) := fun _ => rfl

theorem Traces.fail {code : ε} {failed : δ} (same : codes code = failed) :
    Traces lost codes erase (fail code : Prog ε σ α) (fail failed) :=
  fun _ => .inr (by rw [same]; rfl)

theorem Traces.giveUp {code : ε} (given : lost code) : Traces lost codes erase (Prog.fail code) plain :=
  fun _ => .inl given

theorem Traces.unfinished : Traces lost codes erase (unfinished : Prog ε σ α) unfinished := fun _ => rfl

theorem Traces.ite {condition : Prop} [Decidable condition] {other : Prog ε σ α} {otherPlain : Prog δ τ α}
    (holds : Traces lost codes erase program plain) (fails : Traces lost codes erase other otherPlain) :
    Traces lost codes erase (if condition then program else other)
      (if condition then plain else otherPlain) := by
  split
  · exact holds
  · exact fails

theorem Traces.bind {next : α → Prog ε σ β} {goOn : α → Prog δ τ β}
    (begins : Traces lost codes erase first begin)
    (goes : ∀ value, Traces lost codes erase (next value) (goOn value)) :
    Traces lost codes erase (first >>= next) (begin >>= goOn) := by
  intro state
  have step := begins state
  cases run : first state with
  | ok value after =>
      rw [run] at step
      rw [bind_run_ok run, bind_run_ok step]
      exact goes value after
  | error code after =>
      rw [run] at step
      rw [bind_run_error run]
      exact step.imp_right fun failed => bind_run_error failed
  | fault =>
      rw [run] at step
      rw [bind_run_fault run]
      exact bind_run_fault step
  | undefined =>
      rw [run] at step
      rw [bind_run_undefined run]
      exact bind_run_undefined step
  | unfinished =>
      rw [run] at step
      rw [bind_run_unfinished run]
      exact bind_run_unfinished step

theorem Traces.mapError {rename : ε → ε} {masks : δ → δ} (traces : Traces lost codes erase program plain)
    (kept : ∀ code, lost code → lost (rename code)) (same : ∀ code, codes (rename code) = masks (codes code)) :
    Traces lost codes erase (mapError rename program) (mapError masks plain) := by
  intro state
  have step := traces state
  unfold Prog.mapError
  cases run : program state with
  | ok value after =>
      rw [run] at step
      rw [show plain (erase state) = _ from step]
      rfl
  | error code after =>
      rw [run] at step
      obtain given | failed := step
      · exact .inl (kept code given)
      · refine .inr ?_
        rw [failed, same]
  | fault | undefined | unfinished =>
      rw [run] at step
      rw [show plain (erase state) = _ from step]
      rfl

/-- A step of the plain program, on the part of the state that is not the record. -/
theorem Traces.step {ρ : Type y} {code : δ → ε} {plain : Prog δ τ α} (same : ∀ failed, codes (code failed) = failed) :
    Traces lost codes (Prod.fst : τ × ρ → τ) (onFirst (recode code plain)) plain := by
  intro state
  unfold Prog.onFirst Prog.recode
  cases run : plain state.1 with
  | ok value after => rfl
  | error failed after => exact .inr (by rw [same])
  | fault => rfl
  | undefined => rfl
  | unfinished => rfl

end Prog

end IQuik.Program
