import IQuik.Program.Outcome

namespace IQuik.Program

universe u v w

/-! # Fuel

A loop of a source program is a family of programs, one for every amount of
fuel. More fuel than a run needs does not change what the run does.
-/

namespace Prog

variable {ε : Type u} {σ : Type v} {α β : Type w} {state : σ}

section Extension

/-- `large` does what `small` does, unless that stops for want of fuel. -/
def Extends (small large : Prog ε σ α) : Prop :=
  ∀ state, small state = .unfinished ∨ large state = small state

theorem Extends.refl (program : Prog ε σ α) : Extends program program := fun _ => .inr rfl

theorem Extends.unfinished (large : Prog ε σ α) : Extends unfinished large := fun _ => .inl rfl

theorem Extends.bind {small large : Prog ε σ α} {next next' : α → Prog ε σ β}
    (begins : Extends small large) (goes : ∀ value, Extends (next value) (next' value)) :
    Extends (small >>= next) (large >>= next') := by
  intro state
  obtain stopped | same := begins state
  · exact .inl (bind_run_unfinished stopped)
  cases run : small state with
  | ok value after =>
      rw [bind_run_ok run, bind_run_ok (same.trans run)]
      exact goes value after
  | error code after => exact .inr (by rw [bind_run_error run, bind_run_error (same.trans run)])
  | fault => exact .inr (by rw [bind_run_fault run, bind_run_fault (same.trans run)])
  | undefined => exact .inr (by rw [bind_run_undefined run, bind_run_undefined (same.trans run)])
  | unfinished => exact .inl (bind_run_unfinished run)

theorem Extends.ite {condition : Prop} [Decidable condition] {yes yes' no no' : Prog ε σ α}
    (holds : Extends yes yes') (fails : Extends no no') :
    Extends (if condition then yes else no) (if condition then yes' else no') := by
  split
  · exact holds
  · exact fails

theorem Extends.mapError {small large : Prog ε σ α} (rename : ε → ε) (grows : Extends small large) :
    Extends (mapError rename small) (mapError rename large) := by
  intro state
  unfold Prog.mapError
  obtain stopped | same := grows state
  · rw [stopped]
    exact .inl rfl
  · rw [same]
    exact .inr rfl

end Extension

section Families

variable {family first : Nat → Prog ε σ α} {next : Nat → α → Prog ε σ β}

/-- With more fuel the runs of the family go further. -/
def Grows (family : Nat → Prog ε σ α) : Prop :=
  ∀ small large, small ≤ large → Extends (family small) (family large)

theorem Grows.of_ends (grows : Grows family) {small large : Nat} (more : small ≤ large)
    (ends : family small state ≠ .unfinished) : family large state = family small state :=
  (grows small large more state).resolve_left ends

/-- The run ends, with any fuel from some amount on. -/
def Finishes (family : Nat → Prog ε σ α) (state : σ) : Prop :=
  ∃ fuel, ∀ more, fuel ≤ more → family more state ≠ .unfinished

theorem Finishes.of_grows (grows : Grows family) {fuel : Nat} (ends : family fuel state ≠ .unfinished) :
    Finishes family state :=
  ⟨fuel, fun _ enough => by rwa [grows.of_ends enough ends]⟩

theorem Finishes.const {program : Prog ε σ α} (ends : program state ≠ .unfinished) :
    Finishes (fun _ => program) state := ⟨0, fun _ _ => ends⟩

theorem Finishes.congr {other : Nat → Prog ε σ α} {after : σ} (finishes : Finishes other after)
    (same : ∀ fuel, family fuel state = other fuel after) : Finishes family state := by
  obtain ⟨fuel, ends⟩ := finishes
  exact ⟨fuel, fun more enough => by rw [same]; exact ends more enough⟩

/-- A loop that takes one unit of fuel before it begins. -/
theorem Finishes.of_succ (finishes : Finishes (fun fuel => family (fuel + 1)) state) :
    Finishes family state := by
  obtain ⟨fuel, ends⟩ := finishes
  refine ⟨fuel + 1, fun more enough => ?_⟩
  obtain ⟨less, rfl⟩ : ∃ less, more = less + 1 := ⟨more - 1, by omega⟩
  exact ends less (by omega)

/-- A sequence ends if its first part does, and its second one behind every
result of the first. -/
theorem Finishes.bind (grows : Grows first) (begins : Finishes first state)
    (goes : ∀ value after, (∃ fuel, first fuel state = .ok value after) →
      Finishes (fun fuel => next fuel value) after) :
    Finishes (fun fuel => first fuel >>= next fuel) state := by
  obtain ⟨fuel, ends⟩ := begins
  have here := ends fuel le_rfl
  have same : ∀ more, fuel ≤ more → first more state = first fuel state :=
    fun more enough => grows.of_ends enough here
  cases run : first fuel state with
  | ok value after =>
      obtain ⟨enough, rest⟩ := goes value after ⟨fuel, run⟩
      refine ⟨max fuel enough, fun more above => ?_⟩
      change (first more >>= next more) state ≠ _
      rw [bind_run_ok ((same more (by omega)).trans run)]
      exact rest more (by omega)
  | error code after =>
      refine ⟨fuel, fun more above => ?_⟩
      change (first more >>= next more) state ≠ _
      rw [bind_run_error ((same more above).trans run)]
      exact nofun
  | fault =>
      refine ⟨fuel, fun more above => ?_⟩
      change (first more >>= next more) state ≠ _
      rw [bind_run_fault ((same more above).trans run)]
      exact nofun
  | undefined =>
      refine ⟨fuel, fun more above => ?_⟩
      change (first more >>= next more) state ≠ _
      rw [bind_run_undefined ((same more above).trans run)]
      exact nofun
  | unfinished => exact absurd run here

theorem Grows.const (program : Prog ε σ α) : Grows fun _ => program := fun _ _ _ => .refl program

theorem Finishes.ite {condition : Prop} [Decidable condition] {yes no : Nat → Prog ε σ α}
    (holds : condition → Finishes yes state) (fails : ¬condition → Finishes no state) :
    Finishes (fun fuel => if condition then yes fuel else no fuel) state := by
  by_cases known : condition
  · simp only [if_pos known]
    exact holds known
  · simp only [if_neg known]
    exact fails known

theorem mapError_unfinished {program : Prog ε σ α} {rename : ε → ε} :
    mapError rename program state = .unfinished ↔ program state = .unfinished := by
  unfold mapError
  cases run : program state <;> simp

theorem Finishes.mapError (rename : ε → ε) (finishes : Finishes family state) :
    Finishes (fun fuel => mapError rename (family fuel)) state := by
  obtain ⟨fuel, ends⟩ := finishes
  exact ⟨fuel, fun more enough stopped => ends more enough (mapError_unfinished.mp stopped)⟩

end Families

section Bounded

/-- A program without loops that need fuel. -/
def Ends (program : Prog ε σ α) : Prop := ∀ state, program state ≠ .unfinished

theorem Ends.pure (value : α) : Ends (pure value : Prog ε σ α) := fun _ => nofun

theorem Ends.fail (code : ε) : Ends (fail code : Prog ε σ α) := fun _ => nofun

theorem Ends.view (field : σ → α) : Ends (view field : Prog ε σ α) := fun _ => nofun

theorem Ends.update (store : σ → σ) : Ends (update store : Prog ε σ PUnit.{w + 1}) := fun _ => nofun

theorem Ends.demand (condition : Prop) [Decidable condition] :
    Ends (demand condition : Prog ε σ PUnit.{w + 1}) := by
  unfold Prog.demand
  split <;> exact fun _ => nofun

theorem Ends.arith (condition : Prop) [Decidable condition] :
    Ends (arith condition : Prog ε σ PUnit.{w + 1}) := by
  unfold Prog.arith
  split <;> exact fun _ => nofun

theorem Ends.defined (value : Option α) : Ends (defined value : Prog ε σ α) := by
  cases value <;> exact fun _ => nofun

theorem Ends.bind {first : Prog ε σ α} {next : α → Prog ε σ β} (begins : Ends first)
    (goes : ∀ value, Ends (next value)) : Ends (first >>= next) := by
  intro state
  have step := begins state
  cases run : first state with
  | ok value after =>
      rw [bind_run_ok run]
      exact goes value after
  | error code after => rw [bind_run_error run]; exact nofun
  | fault => rw [bind_run_fault run]; exact nofun
  | undefined => rw [bind_run_undefined run]; exact nofun
  | unfinished => exact absurd run step

theorem Ends.ite {condition : Prop} [Decidable condition] {yes no : Prog ε σ α} (holds : Ends yes)
    (fails : Ends no) : Ends (if condition then yes else no) := by
  split
  · exact holds
  · exact fails

theorem Ends.onFirst {τ : Type v} {program : Prog ε σ α} (ends : Ends program) :
    Ends (onFirst program : Prog ε (σ × τ) α) := by
  intro state
  have step := ends state.1
  unfold Prog.onFirst
  cases run : program state.1 with
  | unfinished => exact absurd run step
  | _ => exact nofun

theorem Ends.scratch {τ : Type w} {start : τ} {program : Prog ε (σ × τ) PUnit.{w + 1}}
    (ends : Ends program) : Ends (scratch start program) := by
  intro state
  have step := ends (state, start)
  unfold Prog.scratch
  cases run : program (state, start) with
  | unfinished => exact absurd run step
  | _ => exact nofun

theorem Ends.inPlace {τ : Type v} {get : σ → τ} {put : τ → σ → σ} {program : Prog ε (σ × τ) α}
    (ends : Ends program) : Ends (inPlace get put program) := by
  intro state
  have step := ends (state, get state)
  unfold Prog.inPlace
  cases run : program (state, get state) with
  | unfinished => exact absurd run step
  | _ => exact nofun

end Bounded

end Prog

end IQuik.Program
