import IQuik.Program.Outcome

namespace IQuik.Program

universe u v w x

/-! # Where a run can end

A rule of one program says what holds when it succeeds, and what holds when it
returns an error. With `faults := False` it also says that the run has no fault.
-/

namespace Outcome

variable {ε : Type u} {σ : Type v} {α : Type w}

def EndsIn (faults : Prop) (post : α → σ → Prop) (failed : ε → σ → Prop) : Outcome ε σ α → Prop
  | .ok value after => post value after
  | .error code after => failed code after
  | .fault => faults
  | .undefined => True
  | .unfinished => True

theorem EndsIn.of_stops {outcome : Outcome ε σ α} {post : α → σ → Prop} {failed : ε → σ → Prop}
    (stops : outcome.state? = none) : outcome.EndsIn True post failed := by
  cases outcome with
  | ok value after => cases stops
  | error code after => cases stops
  | fault => trivial
  | undefined => trivial
  | unfinished => trivial

end Outcome

namespace Prog

variable {ε : Type u} {σ : Type v} {α β : Type w} {faults : Prop} {pre : σ → Prop}
  {middle : α → σ → Prop} {post : β → σ → Prop} {failed : ε → σ → Prop}
  {first : Prog ε σ α} {next : α → Prog ε σ β}

/-- Where a run from a state with `pre` can end. -/
def Exits (faults : Prop) (pre : σ → Prop) (program : Prog ε σ α) (post : α → σ → Prop)
    (failed : ε → σ → Prop) : Prop :=
  ∀ state, pre state → (program state).EndsIn faults post failed

theorem Exits.of_ok {value : α} {state after : σ} (exits : Exits faults pre first middle failed)
    (known : pre state) (returned : first state = .ok value after) : middle value after := by
  have step := exits state known
  rwa [returned] at step

theorem Exits.of_error {code : ε} {state after : σ} (exits : Exits faults pre first middle failed)
    (known : pre state) (returned : first state = .error code after) : failed code after := by
  have step := exits state known
  rwa [returned] at step

theorem Exits.pure {value : α} (holds : ∀ state, pre state → middle value state) :
    Exits faults pre (pure value : Prog ε σ α) middle failed :=
  fun state known => holds state known

theorem Exits.fail {code : ε} (holds : ∀ state, pre state → failed code state) :
    Exits faults pre (fail code : Prog ε σ α) middle failed :=
  fun state known => holds state known

theorem Exits.unfinished : Exits faults pre (unfinished : Prog ε σ α) middle failed :=
  fun _ _ => trivial

theorem Exits.view {field : σ → α} (holds : ∀ state, pre state → middle (field state) state) :
    Exits faults pre (view field : Prog ε σ α) middle failed :=
  fun state known => holds state known

theorem Exits.update {store : σ → σ} {post : PUnit → σ → Prop}
    (holds : ∀ state, pre state → post ⟨⟩ (store state)) :
    Exits faults pre (update store : Prog ε σ PUnit) post failed :=
  fun state known => holds state known

theorem Exits.demand {condition : Prop} [Decidable condition] {post : PUnit → σ → Prop}
    (holds : condition → ∀ state, pre state → post ⟨⟩ state) :
    Exits faults pre (demand condition : Prog ε σ PUnit) post failed := by
  by_cases known : condition
  · rw [demand_pos known]
    exact Exits.pure (holds known)
  · rw [demand_neg known]
    exact fun _ _ => trivial

theorem Exits.arith {condition : Prop} [Decidable condition] {post : PUnit → σ → Prop}
    (defined : faults ∨ condition) (holds : condition → ∀ state, pre state → post ⟨⟩ state) :
    Exits faults pre (arith condition : Prog ε σ PUnit) post failed := by
  by_cases known : condition
  · rw [arith_pos known]
    exact Exits.pure (holds known)
  · rw [arith_neg known]
    exact fun _ _ => defined.resolve_right known

theorem Exits.defined {value : Option α}
    (holds : ∀ known, value = some known → ∀ state, pre state → middle known state) :
    Exits faults pre (defined value : Prog ε σ α) middle failed := by
  cases value with
  | none => exact fun _ _ => trivial
  | some known => exact Exits.pure (holds known rfl)

theorem Exits.bind (begins : Exits faults pre first middle failed)
    (goes : ∀ value, Exits faults (middle value) (next value) post failed) :
    Exits faults pre (first >>= next) post failed := by
  intro state known
  have step := begins state known
  cases run : first state with
  | ok value after =>
      rw [run] at step
      rw [bind_run_ok run]
      exact goes value after step
  | error code after =>
      rw [run] at step
      rw [bind_run_error run]
      exact step
  | fault =>
      rw [run] at step
      rw [bind_run_fault run]
      exact step
  | undefined =>
      rw [bind_run_undefined run]
      trivial
  | unfinished =>
      rw [bind_run_unfinished run]
      trivial

theorem Exits.conseq {strong : σ → Prop} {weak : α → σ → Prop} {failed' : ε → σ → Prop}
    (exits : Exits faults pre first middle failed) (before : ∀ state, strong state → pre state)
    (after : ∀ value state, middle value state → weak value state)
    (breaks : ∀ code state, failed code state → failed' code state) :
    Exits faults strong first weak failed' := by
  intro state known
  have step := exits state (before state known)
  cases run : first state with
  | ok value final =>
      rw [run] at step
      exact after value final step
  | error code final =>
      rw [run] at step
      exact breaks code final step
  | fault =>
      rw [run] at step
      exact step
  | undefined => trivial
  | unfinished => trivial

theorem Exits.ite {condition : Prop} [Decidable condition] {yes no : Prog ε σ α}
    (holds : condition → Exits faults pre yes middle failed)
    (fails : ¬condition → Exits faults pre no middle failed) :
    Exits faults pre (if condition then yes else no) middle failed := by
  split
  · exact holds ‹_›
  · exact fails ‹_›

theorem Exits.mapError {rename : ε → ε} (exits : Exits faults pre first middle fun code after => failed (rename code) after) :
    Exits faults pre (mapError rename first) middle failed := by
  intro state known
  have step := exits state known
  unfold Prog.mapError
  cases run : first state <;> rw [run] at step <;> exact step

theorem Exits.onFirst {τ : Type x} {pre : σ × τ → Prop} {middle : α → σ × τ → Prop}
    {failed : ε → σ × τ → Prop}
    (exits : ∀ rest, Exits faults (fun state => pre (state, rest)) first
      (fun value after => middle value (after, rest)) fun code after => failed code (after, rest)) :
    Exits faults pre (onFirst first) middle failed := by
  rintro ⟨state, rest⟩ known
  have step := exits rest state known
  unfold Prog.onFirst
  cases run : first state <;> rw [run] at step <;> exact step

theorem Exits.scratch {τ : Type w} {start : τ} {program : Prog ε (σ × τ) PUnit.{w + 1}}
    {middle : τ → σ → Prop}
    (exits : Exits faults (fun state => pre state.1 ∧ state.2 = start) program
      (fun _ after => middle after.2 after.1) fun code after => failed code after.1) :
    Exits faults pre (scratch start program) middle failed := by
  intro state known
  have step := exits (state, start) ⟨known, rfl⟩
  unfold Prog.scratch
  cases run : program (state, start) <;> rw [run] at step <;> exact step

theorem Exits.inPlace {τ : Type x} {get : σ → τ} {put : τ → σ → σ} {program : Prog ε (σ × τ) α}
    (exits : Exits faults (fun state => pre state.1) program (fun value after => middle value (put after.2 after.1))
      fun code after => failed code (put after.2 after.1)) :
    Exits faults pre (inPlace get put program) middle failed := by
  intro state known
  have step := exits (state, get state) known
  unfold Prog.inPlace
  cases run : program (state, get state) <;> rw [run] at step <;> exact step

theorem Exits.onError {undo : σ → σ} (exits : Exits faults pre first middle fun code after => failed code (undo after)) :
    Exits faults pre (onError undo first) middle failed := by
  intro state known
  have step := exits state known
  unfold Prog.onError
  cases run : first state <;> rw [run] at step <;> exact step

theorem Exits.confine {inside : σ → Prop} [DecidablePred inside] (exits : Exits faults pre first middle failed) :
    Exits faults pre (confine inside first) middle failed := by
  intro state known
  have step := exits state known
  unfold Prog.confine
  cases run : first state <;> rw [run] at step <;> dsimp only
  case ok | error =>
    split
    · exact step
    · trivial
  all_goals exact step

theorem Exits.attempt (exits : Exits faults pre first middle failed) :
    Exits faults pre (attempt first)
      (fun result after => (∀ value, result = .ok value → middle value after) ∧
        ∀ code, result = .error code → failed code after) failed := by
  intro state known
  have step := exits state known
  unfold Prog.attempt
  cases run : first state with
  | ok value after =>
      rw [run] at step
      refine ⟨fun result same => ?_, nofun⟩
      cases same
      exact step
  | error code after =>
      rw [run] at step
      refine ⟨nofun, fun result same => ?_⟩
      cases same
      exact step
  | fault =>
      rw [run] at step
      exact step
  | undefined => trivial
  | unfinished => trivial

/-- A run that has no fault. -/
theorem Exits.no_fault {state : σ} (exits : Exits False pre first middle failed) (known : pre state) :
    first state ≠ .fault := by
  intro run
  have step := exits state known
  rw [run] at step
  exact step

end Prog

end IQuik.Program
