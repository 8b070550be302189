import Mathlib.Algebra.Ring.Nat

namespace IQuik.Program

universe u v w x

/-! # Programs that return error codes

A C function reads and writes its state, and then returns a value, or an error
code, or does neither. The three ways of not returning are kept apart: an operation on
numbers that has no result (a division by zero, a shift by the width of the
number or more), other behaviour that the language leaves undefined (a read of
memory nobody wrote), and a run that needs more iterations than it was given
fuel for.
-/

inductive Outcome (ε : Type u) (σ : Type v) (α : Type w) where
  | ok (value : α) (state : σ)
  | error (code : ε) (state : σ)
  | fault
  | undefined
  | unfinished

/-- A program over the state `σ` with the error codes `ε`. An error keeps every
store made before it. -/
def Prog (ε : Type u) (σ : Type v) (α : Type w) := σ → Outcome ε σ α

namespace Outcome

variable {ε : Type u} {σ : Type v} {α : Type w}

/-- The state a call returns in, whether it succeeded or not. -/
def state? : Outcome ε σ α → Option σ
  | .ok _ state => some state
  | .error _ state => some state
  | .fault => none
  | .undefined => none
  | .unfinished => none

@[simp] theorem state?_ok (value : α) (state : σ) :
    (ok value state : Outcome ε σ α).state? = some state := rfl

@[simp] theorem state?_error (code : ε) (state : σ) :
    (error code state : Outcome ε σ α).state? = some state := rfl

@[simp] theorem state?_fault : (fault : Outcome ε σ α).state? = none := rfl

@[simp] theorem state?_undefined : (undefined : Outcome ε σ α).state? = none := rfl

@[simp] theorem state?_unfinished : (unfinished : Outcome ε σ α).state? = none := rfl

/-- The state a call leaves when it succeeds. -/
def success? : Outcome ε σ α → Option σ
  | .ok _ state => some state
  | _ => none

theorem success?_eq_some {outcome : Outcome ε σ α} {state : σ} :
    outcome.success? = some state ↔ ∃ value, outcome = .ok value state := by
  cases outcome <;> simp [success?]

/-- The value and the state of a call that succeeds. -/
def result? : Outcome ε σ α → Option (α × σ)
  | .ok value state => some (value, state)
  | _ => none

theorem result?_eq_some {outcome : Outcome ε σ α} {result : α × σ} :
    outcome.result? = some result ↔ outcome = .ok result.1 result.2 := by
  obtain ⟨value, state⟩ := result
  cases outcome <;> simp [result?]

/-- The value of a call that succeeded. -/
def value? : Outcome ε σ α → Option α
  | .ok value _ => some value
  | _ => none

theorem value?_eq_some {outcome : Outcome ε σ α} {value : α} :
    outcome.value? = some value ↔ ∃ state, outcome = .ok value state := by
  cases outcome <;> simp [value?]

/-- The error code of a call that failed. -/
def code? : Outcome ε σ α → Option ε
  | .error code _ => some code
  | _ => none

theorem code?_eq_some {outcome : Outcome ε σ α} {code : ε} :
    outcome.code? = some code ↔ ∃ state, outcome = .error code state := by
  cases outcome <;> simp [code?]

theorem eq_error {outcome : Outcome ε σ α} {code : ε} {state : σ} (failed : outcome.code? = some code)
    (returned : outcome.state? = some state) : outcome = .error code state := by
  cases outcome with
  | error other after =>
      cases failed
      cases returned
      rfl
  | ok value after => cases failed
  | fault => cases failed
  | undefined => cases failed
  | unfinished => cases failed

end Outcome

namespace Prog

variable {ε : Type u} {σ : Type v} {α β : Type w}

instance : Monad (Prog ε σ) where
  pure value := fun state => .ok value state
  bind first next := fun state =>
    match first state with
    | .ok value after => next value after
    | .error code after => .error code after
    | .fault => .fault
    | .undefined => .undefined
    | .unfinished => .unfinished

def fail (code : ε) : Prog ε σ α := fun state => .error code state

def fault : Prog ε σ α := fun _ => .fault

def undefined : Prog ε σ α := fun _ => .undefined

def unfinished : Prog ε σ α := fun _ => .unfinished

/-- A view of the state. -/
def view (field : σ → α) : Prog ε σ α := fun state => .ok (field state) state

/-- A store to the state. -/
def update (store : σ → σ) : Prog ε σ PUnit.{w + 1} := fun state => .ok ⟨⟩ (store state)

/-- What the language requires at this point; without it the behaviour is
undefined. -/
def demand (condition : Prop) [Decidable condition] : Prog ε σ PUnit.{w + 1} :=
  if condition then pure ⟨⟩ else undefined

/-- What an operation on numbers requires to have a result. -/
def arith (condition : Prop) [Decidable condition] : Prog ε σ PUnit.{w + 1} :=
  if condition then pure ⟨⟩ else fault

/-- A value that may never have been written. -/
def defined : Option α → Prog ε σ α
  | some value => pure value
  | none => undefined

/-- Hands every error code of `program` to the caller as another one. -/
def mapError (rename : ε → ε) (program : Prog ε σ α) : Prog ε σ α := fun state =>
  match program state with
  | .error code after => .error (rename code) after
  | outcome => outcome

/-- Calls `program` and goes on with the code it returned, as C does with
`err = f()`. -/
def attempt (program : Prog ε σ α) : Prog ε σ (Except ε α) := fun state =>
  match program state with
  | .ok value after => .ok (.ok value) after
  | .error code after => .ok (.error code) after
  | .fault => .fault
  | .undefined => .undefined
  | .unfinished => .unfinished

/-- Undoes something in the state before an error of `program` is handed on. -/
def onError (undo : σ → σ) (program : Prog ε σ α) : Prog ε σ α := fun state =>
  match program state with
  | .error code after => .error code (undo after)
  | outcome => outcome

/-- Runs `program` on the first component of the state. -/
def onFirst {τ : Type x} (program : Prog ε σ α) : Prog ε (σ × τ) α := fun state =>
  match program state.1 with
  | .ok value after => .ok value (after, state.2)
  | .error code after => .error code (after, state.2)
  | .fault => .fault
  | .undefined => .undefined
  | .unfinished => .unfinished

/-- Runs `program` with a second component that starts as `start`, and returns
that component when it succeeds. It is lost on an error. -/
def scratch {τ : Type w} (start : τ) (program : Prog ε (σ × τ) PUnit.{w + 1}) : Prog ε σ τ :=
  fun state =>
    match program (state, start) with
    | .ok _ after => .ok after.2 after.1
    | .error code after => .error code after.1
    | .fault => .fault
    | .undefined => .undefined
    | .unfinished => .unfinished

/-- What `program` does is undefined unless the state that it returns in is inside. -/
def confine (inside : σ → Prop) [DecidablePred inside] (program : Prog ε σ α) : Prog ε σ α := fun state =>
  match program state with
  | .ok value after => if inside after then .ok value after else .undefined
  | .error code after => if inside after then .error code after else .undefined
  | .fault => .fault
  | .undefined => .undefined
  | .unfinished => .unfinished

/-- Runs `program` with a part of the state as its second component, and stores
that part back, also on an error. -/
def inPlace {τ : Type x} (get : σ → τ) (put : τ → σ → σ) (program : Prog ε (σ × τ) α) :
    Prog ε σ α := fun state =>
  match program (state, get state) with
  | .ok value after => .ok value (put after.2 after.1)
  | .error code after => .error code (put after.2 after.1)
  | .fault => .fault
  | .undefined => .undefined
  | .unfinished => .unfinished

/-- Runs `program` on a part of the state, and stores that part back, also on an
error. -/
def focus {τ : Type x} (get : σ → τ) (put : τ → σ → σ) (program : Prog ε τ α) : Prog ε σ α := fun state =>
  match program (get state) with
  | .ok value after => .ok value (put after state)
  | .error code after => .error code (put after state)
  | .fault => .fault
  | .undefined => .undefined
  | .unfinished => .unfinished

variable {state : σ}

@[simp] theorem pure_run (value : α) : (pure value : Prog ε σ α) state = .ok value state := rfl

@[simp] theorem fail_run (code : ε) : (fail code : Prog ε σ α) state = .error code state := rfl

@[simp] theorem fault_run : (fault : Prog ε σ α) state = .fault := rfl

@[simp] theorem undefined_run : (undefined : Prog ε σ α) state = .undefined := rfl

@[simp] theorem unfinished_run : (unfinished : Prog ε σ α) state = .unfinished := rfl

@[simp] theorem view_run (field : σ → α) :
    (view field : Prog ε σ α) state = .ok (field state) state := rfl

@[simp] theorem update_run (store : σ → σ) :
    (update store : Prog ε σ PUnit) state = .ok ⟨⟩ (store state) := rfl

@[simp] theorem defined_some (value : α) : (defined (some value) : Prog ε σ α) = pure value := rfl

@[simp] theorem defined_none : (defined none : Prog ε σ α) = undefined := rfl

theorem demand_pos {condition : Prop} [Decidable condition] (holds : condition) :
    (demand condition : Prog ε σ PUnit) = pure ⟨⟩ := if_pos holds

theorem demand_neg {condition : Prop} [Decidable condition] (fails : ¬condition) :
    (demand condition : Prog ε σ PUnit) = undefined := if_neg fails

theorem arith_pos {condition : Prop} [Decidable condition] (holds : condition) :
    (arith condition : Prog ε σ PUnit) = pure ⟨⟩ := if_pos holds

theorem arith_neg {condition : Prop} [Decidable condition] (fails : ¬condition) :
    (arith condition : Prog ε σ PUnit) = fault := if_neg fails

section Bind

variable {first : Prog ε σ α} {next : α → Prog ε σ β} {value : α} {after : σ}

theorem bind_run_ok (returned : first state = .ok value after) :
    (first >>= next) state = next value after := by
  change (match first state with
    | .ok value after => next value after
    | .error code after => .error code after
    | .fault => .fault
    | .undefined => .undefined
    | .unfinished => .unfinished) = _
  rw [returned]

theorem bind_run_error {code : ε} (failed : first state = .error code after) :
    (first >>= next) state = .error code after := by
  change (match first state with
    | .ok value after => next value after
    | .error code after => .error code after
    | .fault => .fault
    | .undefined => .undefined
    | .unfinished => .unfinished) = _
  rw [failed]

theorem bind_run_fault (faults : first state = .fault) : (first >>= next) state = .fault := by
  change (match first state with
    | .ok value after => next value after
    | .error code after => .error code after
    | .fault => .fault
    | .undefined => .undefined
    | .unfinished => .unfinished) = _
  rw [faults]

theorem bind_run_undefined (broken : first state = .undefined) :
    (first >>= next) state = .undefined := by
  change (match first state with
    | .ok value after => next value after
    | .error code after => .error code after
    | .fault => .fault
    | .undefined => .undefined
    | .unfinished => .unfinished) = _
  rw [broken]

theorem bind_run_unfinished (stopped : first state = .unfinished) :
    (first >>= next) state = .unfinished := by
  change (match first state with
    | .ok value after => next value after
    | .error code after => .error code after
    | .fault => .fault
    | .undefined => .undefined
    | .unfinished => .unfinished) = _
  rw [stopped]

theorem bind_run_congr {other : Prog ε σ α} {start : σ} (same : first state = other start) :
    (first >>= next) state = (other >>= next) start := by
  change (match first state with
    | .ok value after => next value after
    | .error code after => .error code after
    | .fault => .fault
    | .undefined => .undefined
    | .unfinished => .unfinished) = _
  rw [same]
  rfl

theorem bind_value?_error {code : ε} (failed : first state = .error code after) :
    ((first >>= next) state).value? = none := by
  rw [bind_run_error failed]
  rfl

theorem bind_value?_fault (faults : first state = .fault) :
    ((first >>= next) state).value? = none := by
  rw [bind_run_fault faults]
  rfl

theorem bind_value?_undefined (broken : first state = .undefined) :
    ((first >>= next) state).value? = none := by
  rw [bind_run_undefined broken]
  rfl

theorem bind_value?_unfinished (stopped : first state = .unfinished) :
    ((first >>= next) state).value? = none := by
  rw [bind_run_unfinished stopped]
  rfl

@[simp] theorem pure_bind (value : α) (next : α → Prog ε σ β) :
    ((pure value : Prog ε σ α) >>= next) = next value := rfl

@[simp] theorem view_bind (field : σ → α) (next : α → Prog ε σ β) :
    ((view field : Prog ε σ α) >>= next) state = next (field state) state := rfl

@[simp] theorem update_bind (store : σ → σ) (next : PUnit.{w + 1} → Prog ε σ β) :
    ((update store : Prog ε σ PUnit) >>= next) state = next ⟨⟩ (store state) := rfl

@[simp] theorem fail_bind (code : ε) (next : α → Prog ε σ β) :
    ((fail code : Prog ε σ α) >>= next) = fail code := rfl

@[simp] theorem fault_bind (next : α → Prog ε σ β) :
    ((fault : Prog ε σ α) >>= next) = fault := rfl

@[simp] theorem undefined_bind (next : α → Prog ε σ β) :
    ((undefined : Prog ε σ α) >>= next) = undefined := rfl

theorem bind_value?_none (broken : (first state).value? = none) :
    ((first >>= next) state).value? = none := by
  cases step : first state with
  | ok value after => rw [step] at broken; cases broken
  | error code after => exact bind_value?_error step
  | fault => exact bind_value?_fault step
  | undefined => exact bind_value?_undefined step
  | unfinished => exact bind_value?_unfinished step

theorem bind_pure (program : Prog ε σ α) : program >>= pure = program := by
  funext state
  cases step : program state with
  | ok value after => rw [bind_run_ok step, pure_run]
  | error code after => rw [bind_run_error step]
  | fault => rw [bind_run_fault step]
  | undefined => rw [bind_run_undefined step]
  | unfinished => rw [bind_run_unfinished step]

theorem bind_assoc {γ : Type w} (first : Prog ε σ α) (next : α → Prog ε σ β)
    (last : β → Prog ε σ γ) :
    (first >>= next) >>= last = first >>= fun value => next value >>= last := by
  funext state
  cases step : first state with
  | ok value after =>
      rw [bind_run_ok step]
      cases rest : next value after with
      | ok result final => rw [bind_run_ok rest, bind_run_ok ((bind_run_ok step).trans rest)]
      | error code final => rw [bind_run_error rest, bind_run_error ((bind_run_ok step).trans rest)]
      | fault => rw [bind_run_fault rest, bind_run_fault ((bind_run_ok step).trans rest)]
      | undefined => rw [bind_run_undefined rest, bind_run_undefined ((bind_run_ok step).trans rest)]
      | unfinished =>
          rw [bind_run_unfinished rest, bind_run_unfinished ((bind_run_ok step).trans rest)]
  | error code after =>
      rw [bind_run_error step, bind_run_error (bind_run_error step)]
  | fault => rw [bind_run_fault step, bind_run_fault (bind_run_fault step)]
  | undefined => rw [bind_run_undefined step, bind_run_undefined (bind_run_undefined step)]
  | unfinished => rw [bind_run_unfinished step, bind_run_unfinished (bind_run_unfinished step)]

/-- A sequence succeeds exactly when both of its steps do. -/
theorem bind_eq_ok {result : β} {final : σ} :
    (first >>= next) state = .ok result final ↔
      ∃ value after, first state = .ok value after ∧ next value after = .ok result final := by
  constructor
  · intro returned
    cases step : first state with
    | ok value after => exact ⟨value, after, rfl, by rwa [bind_run_ok step] at returned⟩
    | error code after => rw [bind_run_error step] at returned; cases returned
    | fault => rw [bind_run_fault step] at returned; cases returned
    | undefined => rw [bind_run_undefined step] at returned; cases returned
    | unfinished => rw [bind_run_unfinished step] at returned; cases returned
  · rintro ⟨value, after, step, rest⟩
    rw [bind_run_ok step, rest]

/-- A sequence fails where its first failing step does. -/
theorem bind_eq_error {code : ε} {final : σ} :
    (first >>= next) state = .error code final ↔
      first state = .error code final ∨
        ∃ value after, first state = .ok value after ∧ next value after = .error code final := by
  constructor
  · intro failed
    cases step : first state with
    | ok value after => exact .inr ⟨value, after, rfl, by rwa [bind_run_ok step] at failed⟩
    | error code after =>
        rw [bind_run_error step] at failed
        cases failed
        exact .inl rfl
    | fault => rw [bind_run_fault step] at failed; cases failed
    | undefined => rw [bind_run_undefined step] at failed; cases failed
    | unfinished => rw [bind_run_unfinished step] at failed; cases failed
  · rintro (failed | ⟨value, after, step, rest⟩)
    · exact bind_run_error failed
    · rw [bind_run_ok step, rest]

end Bind

/-- Where a sequence returns: in the first step with an error, or in the second. -/
theorem bind_state? {first : Prog ε σ α} {next : α → Prog ε σ β} {final : σ} :
    ((first >>= next) state).state? = some final ↔
      (∃ code, first state = .error code final) ∨
        ∃ value after, first state = .ok value after ∧ (next value after).state? = some final := by
  cases step : first state with
  | ok value after =>
      rw [bind_run_ok step]
      simp [and_assoc]
  | error code after =>
      rw [bind_run_error step]
      simp
  | fault => simp [bind_run_fault step]
  | undefined => simp [bind_run_undefined step]
  | unfinished => simp [bind_run_unfinished step]

theorem bind_state?_none {first : Prog ε σ α} {next : α → Prog ε σ β}
    (stopped : (first state).state? = none) : ((first >>= next) state).state? = none := by
  cases step : first state with
  | ok value after => rw [step] at stopped; cases stopped
  | error code after => rw [step] at stopped; cases stopped
  | fault => rw [bind_run_fault step]; rfl
  | undefined => rw [bind_run_undefined step]; rfl
  | unfinished => rw [bind_run_unfinished step]; rfl

/-- A sequence that returns has a first step that returns. -/
theorem state?_of_bind {first : Prog ε σ α} {next : α → Prog ε σ β}
    (returned : ((first >>= next) state).state?.isSome) : (first state).state?.isSome := by
  by_contra stopped
  rw [bind_state?_none (Option.not_isSome_iff_eq_none.mp stopped)] at returned
  cases returned

theorem pure_eq_ok {value result : α} {after : σ} :
    (pure value : Prog ε σ α) state = .ok result after ↔ result = value ∧ after = state := by
  simp [eq_comm]

theorem demand_bind_eq_ok {condition : Prop} [Decidable condition] {next : Prog ε σ α} {result : α}
    {after : σ} :
    ((demand condition : Prog ε σ PUnit) >>= fun _ => next) state = .ok result after ↔
      condition ∧ next state = .ok result after := by
  by_cases known : condition
  · rw [demand_pos known, pure_bind]
    simp [known]
  · rw [demand_neg known, undefined_bind]
    simp [known]

theorem arith_bind_eq_ok {condition : Prop} [Decidable condition] {next : Prog ε σ α} {result : α}
    {after : σ} :
    ((arith condition : Prog ε σ PUnit) >>= fun _ => next) state = .ok result after ↔
      condition ∧ next state = .ok result after := by
  by_cases known : condition
  · rw [arith_pos known, pure_bind]
    simp [known]
  · rw [arith_neg known, fault_bind]
    simp [known]

theorem defined_eq_ok {known : Option α} {value : α} {after : σ} :
    (defined known : Prog ε σ α) state = .ok value after ↔ known = some value ∧ after = state := by
  cases known with
  | none => simp
  | some other => simp [eq_comm]

theorem defined_ne_error {known : Option α} {code : ε} {after : σ} :
    (defined known : Prog ε σ α) state ≠ .error code after := by
  intro run
  cases known with
  | none => cases run
  | some other => cases run

theorem onFirst_bind {τ : Type x} (first : Prog ε σ α) (next : α → Prog ε σ β) :
    (onFirst (first >>= next) : Prog ε (σ × τ) β) = (onFirst first >>= fun value => onFirst (next value)) := by
  funext state
  cases run : first state.1 with
  | ok value after =>
      have step : (onFirst first : Prog ε (σ × τ) α) state = .ok value (after, state.2) := by simp only [onFirst, run]
      rw [bind_run_ok step, onFirst, bind_run_ok run]
      rfl
  | error code after =>
      have step : (onFirst first : Prog ε (σ × τ) α) state = .error code (after, state.2) := by simp only [onFirst, run]
      rw [bind_run_error step, onFirst, bind_run_error run]
  | fault =>
      have step : (onFirst first : Prog ε (σ × τ) α) state = .fault := by simp only [onFirst, run]
      rw [bind_run_fault step, onFirst, bind_run_fault run]
  | undefined =>
      have step : (onFirst first : Prog ε (σ × τ) α) state = .undefined := by simp only [onFirst, run]
      rw [bind_run_undefined step, onFirst, bind_run_undefined run]
  | unfinished =>
      have step : (onFirst first : Prog ε (σ × τ) α) state = .unfinished := by simp only [onFirst, run]
      rw [bind_run_unfinished step, onFirst, bind_run_unfinished run]

theorem onFirst_eq_ok {τ : Type x} {program : Prog ε σ α} {state after : σ × τ} {value : α} :
    onFirst program state = .ok value after ↔
      program state.1 = .ok value after.1 ∧ after.2 = state.2 := by
  obtain ⟨left, right⟩ := after
  unfold onFirst
  cases run : program state.1 <;> simp [eq_comm, and_assoc]

theorem onFirst_eq_error {τ : Type x} {program : Prog ε σ α} {state after : σ × τ} {code : ε} :
    onFirst program state = .error code after ↔
      program state.1 = .error code after.1 ∧ after.2 = state.2 := by
  obtain ⟨left, right⟩ := after
  unfold onFirst
  cases run : program state.1 <;> simp [eq_comm, and_assoc]

theorem focus_eq_ok {τ : Type x} {get : σ → τ} {put : τ → σ → σ} {program : Prog ε τ α} {value : α}
    {after : σ} :
    focus get put program state = .ok value after ↔
      ∃ part, program (get state) = .ok value part ∧ after = put part state := by
  unfold focus
  cases run : program (get state) <;> simp [eq_comm, and_assoc]

theorem onFirst_state?_none {τ : Type x} {program : Prog ε σ α} {state : σ × τ}
    (stopped : (program state.1).state? = none) : (onFirst program state).state? = none := by
  unfold onFirst
  cases run : program state.1 with
  | ok value after => rw [run] at stopped; cases stopped
  | error code after => rw [run] at stopped; cases stopped
  | fault => rfl
  | undefined => rfl
  | unfinished => rfl

section InPlace

variable {τ : Type x} {get : σ → τ} {put : τ → σ → σ} {program : Prog ε (σ × τ) α} {after : σ × τ}

theorem inPlace_run_ok {value : α} (run : program (state, get state) = .ok value after) :
    inPlace get put program state = .ok value (put after.2 after.1) := by
  unfold inPlace
  rw [run]

theorem inPlace_run_error {code : ε} (run : program (state, get state) = .error code after) :
    inPlace get put program state = .error code (put after.2 after.1) := by
  unfold inPlace
  rw [run]

end InPlace

theorem onError_run_ok {undo : σ → σ} {program : Prog ε σ α} {value : α} {after : σ}
    (run : program state = .ok value after) : onError undo program state = .ok value after := by
  unfold onError
  rw [run]

theorem onError_eq_ok {undo : σ → σ} {program : Prog ε σ α} {value : α} {after : σ} :
    onError undo program state = .ok value after ↔ program state = .ok value after := by
  refine ⟨fun run => ?_, onError_run_ok⟩
  unfold onError at run
  split at run
  · cases run
  · assumption

theorem onError_run_error {undo : σ → σ} {program : Prog ε σ α} {code : ε} {after : σ}
    (run : program state = .error code after) :
    onError undo program state = .error code (undo after) := by
  unfold onError
  rw [run]

theorem onError_run_fault {undo : σ → σ} {program : Prog ε σ α} (run : program state = .fault) :
    onError undo program state = .fault := by
  unfold onError
  rw [run]

theorem scratch_eq_ok {τ : Type w} {start result : τ} {program : Prog ε (σ × τ) PUnit.{w + 1}}
    {after : σ} :
    scratch start program state = .ok result after ↔
      program (state, start) = .ok ⟨⟩ (after, result) := by
  unfold scratch
  cases run : program (state, start) with
  | ok value final =>
      obtain ⟨left, right⟩ := final
      simp [and_comm]
  | error code final => simp
  | fault => simp
  | undefined => simp
  | unfinished => simp

theorem confine_eq_ok {inside : σ → Prop} [DecidablePred inside] {program : Prog ε σ α} {value : α} {after : σ} :
    confine inside program state = .ok value after ↔ program state = .ok value after ∧ inside after := by
  unfold confine
  cases run : program state with
  | ok other final =>
      by_cases known : inside final
      · simp only [if_pos known, Outcome.ok.injEq]
        exact ⟨fun same => ⟨same, same.2 ▸ known⟩, fun same => same.1⟩
      · simp only [if_neg known, reduceCtorEq, Outcome.ok.injEq, false_iff]
        exact fun same => known (same.1.2 ▸ same.2)
  | error code final => by_cases known : inside final <;> simp [known]
  | fault => simp
  | undefined => simp
  | unfinished => simp

theorem attempt_eq_ok {program : Prog ε σ α} {result : Except ε α} {after : σ} :
    attempt program state = .ok result after ↔
      (∃ value, result = .ok value ∧ program state = .ok value after) ∨
        ∃ code, result = .error code ∧ program state = .error code after := by
  unfold attempt
  cases run : program state with
  | ok value final =>
      simp only [Outcome.ok.injEq, reduceCtorEq, and_false, exists_false, or_false]
      exact ⟨fun ⟨same, state⟩ => ⟨value, same.symm, rfl, state⟩,
        fun ⟨_, same, equal, state⟩ => ⟨by rw [same, equal], state⟩⟩
  | error code final =>
      simp only [Outcome.ok.injEq, Outcome.error.injEq, reduceCtorEq, and_false, exists_false, false_or]
      exact ⟨fun ⟨same, state⟩ => ⟨code, same.symm, rfl, state⟩,
        fun ⟨_, same, equal, state⟩ => ⟨by rw [same, equal], state⟩⟩
  | fault => simp
  | undefined => simp
  | unfinished => simp

/-- A call whose result is not looked at returns where the call does. -/
theorem ignore_eq_ok {program : Prog ε σ α} {after : σ} :
    (attempt program >>= fun _ => (pure ⟨⟩ : Prog ε σ PUnit)) state = .ok ⟨⟩ after ↔
      (program state).state? = some after := by
  rw [bind_eq_ok]
  constructor
  · rintro ⟨result, middle, tried, rest⟩
    obtain ⟨-, rfl⟩ := pure_eq_ok.mp rest
    obtain ⟨value, -, run⟩ | ⟨code, -, run⟩ := attempt_eq_ok.mp tried
    · rw [run, Outcome.state?_ok]
    · rw [run, Outcome.state?_error]
  · intro returned
    cases run : program state with
    | ok value final =>
        rw [run] at returned
        obtain rfl := Option.some.inj returned
        exact ⟨_, _, attempt_eq_ok.mpr (.inl ⟨value, rfl, run⟩), rfl⟩
    | error code final =>
        rw [run] at returned
        obtain rfl := Option.some.inj returned
        exact ⟨_, _, attempt_eq_ok.mpr (.inr ⟨code, rfl, run⟩), rfl⟩
    | fault | undefined | unfinished =>
        rw [run] at returned
        cases returned

theorem ignore_state? {program : Prog ε σ α} :
    ((attempt program >>= fun _ => (pure ⟨⟩ : Prog ε σ PUnit)) state).state? = (program state).state? := by
  cases returned : (program state).state? with
  | some after => rw [ignore_eq_ok.mpr returned, Outcome.state?_ok]
  | none =>
      refine bind_state?_none ?_
      rw [attempt]
      cases run : program state <;> rw [run] at returned <;> first | rfl | cases returned

end Prog

end IQuik.Program
