import IQuik.Program.Outcome

namespace IQuik.Program

universe u v v' w x

/-! # Two runs of one program

`Agree` compares the outcomes of two calls, and `Agrees` a program with another
from related states: the two calls return the same value, in states related by
`final`, or the same error code, in states related by `broken`. Either call may be allowed to stop short, which is for
surroundings that can break it off, such as a device that delivers too little;
a call that succeeds is then held to what the other one returns, unless that
one may stop short as well.
-/

namespace Outcome

variable {ε : Type u} {σ : Type v} {τ : Type v'} {α : Type w}

def Agree (shortLeft shortRight : Prop) (final broken : σ → τ → Prop) (holds : α → Prop) :
    Outcome ε σ α → Outcome ε τ α → Prop
  | .ok left before, .ok right after => left = right ∧ holds left ∧ final before after
  | .error left before, .error right after =>
      (shortLeft ∨ shortRight) ∨ (left = right ∧ broken before after)
  | .fault, .fault => True
  | .undefined, .undefined => True
  | .unfinished, .unfinished => True
  | .ok _ _, _ => shortRight
  | _, .ok _ _ => shortLeft
  | _, _ => shortLeft ∨ shortRight

variable {shortLeft shortRight : Prop} {final broken : σ → τ → Prop} {holds : α → Prop}
  {left : Outcome ε σ α} {right : Outcome ε τ α}

/-- Nothing is said of a call that does not succeed and may stop short. -/
theorem Agree.of_short_left (short : shortLeft) (stopped : left.value? = none) :
    left.Agree shortLeft shortRight final broken holds right := by
  cases left <;> cases right <;> simp_all [Agree, value?]

theorem Agree.of_short_right (short : shortRight) (stopped : right.value? = none) :
    left.Agree shortLeft shortRight final broken holds right := by
  cases left <;> cases right <;> simp_all [Agree, value?]

/-- A call that succeeds is held to a call that may not stop short. -/
theorem Agree.of_ok {value : α} {state : σ}
    (agree : (ok value state : Outcome ε σ α).Agree shortLeft False final broken holds right) :
    ∃ other, right = .ok value other ∧ holds value ∧ final state other := by
  cases right with
  | ok other after =>
      obtain ⟨rfl, property, states⟩ := agree
      exact ⟨after, rfl, property, states⟩
  | error code after => exact agree.elim
  | fault => exact agree.elim
  | undefined => exact agree.elim
  | unfinished => exact agree.elim

/-- A call that may not stop short succeeds with the other one. -/
theorem Agree.of_ok_right {value : α} {state : τ}
    (agree : left.Agree False shortRight final broken holds (ok value state)) :
    ∃ other, left = .ok value other ∧ holds value ∧ final other state := by
  cases left with
  | ok other after =>
      obtain ⟨rfl, property, states⟩ := agree
      exact ⟨after, rfl, property, states⟩
  | error code after => exact agree.elim
  | fault => exact agree.elim
  | undefined => exact agree.elim
  | unfinished => exact agree.elim

/-- Where neither call may stop short, they fail together. -/
theorem Agree.of_error {code : ε} {state : σ}
    (agree : (error code state : Outcome ε σ α).Agree False False final broken holds right) :
    ∃ other, right = .error code other ∧ broken state other := by
  cases right with
  | error other after =>
      obtain ⟨rfl, states⟩ := agree.resolve_left fun short => short.elim id id
      exact ⟨after, rfl, states⟩
  | ok value after => exact agree.elim
  | fault => exact (agree.elim id id).elim
  | undefined => exact (agree.elim id id).elim
  | unfinished => exact (agree.elim id id).elim

theorem Agree.of_error_right {code : ε} {state : τ}
    (agree : left.Agree False False final broken holds (error code state)) :
    ∃ other, left = .error code other ∧ broken other state := by
  cases left with
  | error other after =>
      obtain ⟨rfl, states⟩ := agree.resolve_left fun short => short.elim id id
      exact ⟨after, rfl, states⟩
  | ok value after => exact agree.elim
  | fault => exact (agree.elim id id).elim
  | undefined => exact (agree.elim id id).elim
  | unfinished => exact (agree.elim id id).elim

theorem Agree.of_stopped (agree : left.Agree False False final broken holds right)
    (stopped : left.state? = none) : right.state? = none := by
  cases left <;> cases right <;> simp_all [Agree, state?]

theorem Agree.of_stopped_right (agree : left.Agree False False final broken holds right)
    (stopped : right.state? = none) : left.state? = none := by
  cases left <;> cases right <;> simp_all [Agree, state?]

end Outcome

namespace Prog

variable {ε : Type u} {σ : Type v} {τ : Type v'} {α β : Type w} {shortLeft shortRight : Prop}
  {related middle final broken : σ → τ → Prop} {holds : α → Prop} {holdsNext : β → Prop}

/-- From states related by `related`, the two programs have outcomes that
agree, with a value that satisfies `holds`. -/
def Agrees (shortLeft shortRight : Prop) (related final broken : σ → τ → Prop) (holds : α → Prop)
    (left : Prog ε σ α) (right : Prog ε τ α) : Prop :=
  ∀ before after, related before after →
    (left before).Agree shortLeft shortRight final broken holds (right after)

theorem Agrees.pure {value : α} (property : holds value) :
    Agrees shortLeft shortRight related related broken holds (pure value : Prog ε σ α) (pure value : Prog ε τ α) :=
  fun _ _ states => ⟨rfl, property, states⟩

theorem Agrees.fail (code : ε) (breaks : ∀ before after, related before after → broken before after) :
    Agrees shortLeft shortRight related final broken holds (fail code : Prog ε σ α)
      (fail code : Prog ε τ α) :=
  fun _ _ states => .inr ⟨rfl, breaks _ _ states⟩

theorem Agrees.fault :
    Agrees shortLeft shortRight related final broken holds (fault : Prog ε σ α)
      (fault : Prog ε τ α) :=
  fun _ _ _ => trivial

theorem Agrees.undefined :
    Agrees shortLeft shortRight related final broken holds (undefined : Prog ε σ α)
      (undefined : Prog ε τ α) :=
  fun _ _ _ => trivial

theorem Agrees.unfinished :
    Agrees shortLeft shortRight related final broken holds (unfinished : Prog ε σ α)
      (unfinished : Prog ε τ α) :=
  fun _ _ _ => trivial

theorem Agrees.view {left : σ → α} {right : τ → α}
    (same : ∀ before after, related before after →
      left before = right after ∧ holds (left before)) :
    Agrees shortLeft shortRight related related broken holds (view left : Prog ε σ α) (view right : Prog ε τ α) :=
  fun before after states => ⟨(same before after states).1, (same before after states).2, states⟩

theorem Agrees.update {left : σ → σ} {right : τ → τ}
    (stores : ∀ before after, related before after → final (left before) (right after)) :
    Agrees shortLeft shortRight related final broken (fun _ => True) (update left : Prog ε σ PUnit)
      (update right : Prog ε τ PUnit) :=
  fun before after states => ⟨rfl, trivial, stores before after states⟩

theorem Agrees.demand (condition : Prop) [Decidable condition] :
    Agrees shortLeft shortRight related related broken (fun _ => condition) (demand condition : Prog ε σ PUnit)
      (demand condition : Prog ε τ PUnit) := by
  by_cases known : condition
  · rw [demand_pos known, demand_pos known]
    exact Agrees.pure known
  · rw [demand_neg known, demand_neg known]
    exact Agrees.undefined

theorem Agrees.arith (condition : Prop) [Decidable condition] :
    Agrees shortLeft shortRight related related broken (fun _ => condition) (arith condition : Prog ε σ PUnit)
      (arith condition : Prog ε τ PUnit) := by
  by_cases known : condition
  · rw [arith_pos known, arith_pos known]
    exact Agrees.pure known
  · rw [arith_neg known, arith_neg known]
    exact Agrees.fault

theorem Agrees.definedAny {value : Option α} :
    Agrees shortLeft shortRight related related broken (fun _ => True)
      (Prog.defined value : Prog ε σ α) (Prog.defined value : Prog ε τ α) := by
  cases value with
  | none => exact Agrees.undefined
  | some known => exact Agrees.pure trivial

theorem Agrees.defined {value : Option α} (property : ∀ known, value = some known → holds known) :
    Agrees shortLeft shortRight related related broken holds (defined value : Prog ε σ α)
      (defined value : Prog ε τ α) := by
  cases value with
  | none => exact Agrees.undefined
  | some known => exact Agrees.pure (property known rfl)

/-- Agreement composes along a sequence. -/
theorem Agrees.bind {left : Prog ε σ α} {right : Prog ε τ α} {nextLeft : α → Prog ε σ β}
    {nextRight : α → Prog ε τ β}
    (first : Agrees shortLeft shortRight related middle broken holds left right)
    (next : ∀ value, holds value →
      Agrees shortLeft shortRight middle final broken holdsNext (nextLeft value)
        (nextRight value)) :
    Agrees shortLeft shortRight related final broken holdsNext (left >>= nextLeft)
      (right >>= nextRight) := by
  intro before after states
  have step := first before after states
  cases runLeft : left before <;> cases runRight : right after <;> rw [runLeft, runRight] at step
  case ok.ok value middleLeft other middleRight =>
      obtain ⟨rfl, property, states⟩ := step
      rw [bind_run_ok runLeft, bind_run_ok runRight]
      exact next value property middleLeft middleRight states
  case error.error code middleLeft other middleRight =>
      rw [bind_run_error runLeft, bind_run_error runRight]
      exact step
  case fault.fault => rw [bind_run_fault runLeft, bind_run_fault runRight]; trivial
  case undefined.undefined => rw [bind_run_undefined runLeft, bind_run_undefined runRight]; trivial
  case unfinished.unfinished =>
      rw [bind_run_unfinished runLeft, bind_run_unfinished runRight]; trivial
  -- one side has stopped short of the other, and stays so
  all_goals
    have stopsLeft : (left before).value? = none → ((left >>= nextLeft) before).value? = none :=
      bind_value?_none
    have stopsRight : (right after).value? = none → ((right >>= nextRight) after).value? = none :=
      bind_value?_none
    rw [runLeft] at stopsLeft
    rw [runRight] at stopsRight
    first
      | exact .of_short_right step (stopsRight rfl)
      | exact .of_short_left step (stopsLeft rfl)
      | exact step.elim (.of_short_left · (stopsLeft rfl)) (.of_short_right · (stopsRight rfl))

/-- `bind`, told what holds between the two steps. -/
theorem Agrees.bindVia (middle : σ → τ → Prop) (holds : α → Prop) {left : Prog ε σ α}
    {right : Prog ε τ α} {nextLeft : α → Prog ε σ β} {nextRight : α → Prog ε τ β}
    (first : Agrees shortLeft shortRight related middle broken holds left right)
    (next : ∀ value, holds value →
      Agrees shortLeft shortRight middle final broken holdsNext (nextLeft value)
        (nextRight value)) :
    Agrees shortLeft shortRight related final broken holdsNext (left >>= nextLeft)
      (right >>= nextRight) :=
  first.bind next

theorem Agrees.conseq {left : Prog ε σ α} {right : Prog ε τ α} {strong : σ → τ → Prop}
    {broken' : σ → τ → Prop} {holds' : α → Prop}
    (agree : Agrees shortLeft shortRight related middle broken holds left right)
    (before : ∀ s t, strong s t → related s t) (after : ∀ s t, middle s t → final s t)
    (breaks : ∀ s t, broken s t → broken' s t) (property : ∀ value, holds value → holds' value) :
    Agrees shortLeft shortRight strong final broken' holds' left right := by
  intro s t states
  have step := agree s t (before s t states)
  cases runLeft : left s <;> cases runRight : right t <;> rw [runLeft, runRight] at step
  case ok.ok => exact ⟨step.1, property _ step.2.1, after _ _ step.2.2⟩
  case error.error => exact Or.imp_right (fun same => ⟨same.1, breaks _ _ same.2⟩) step
  all_goals exact step

theorem Agrees.ite {condition : Prop} [Decidable condition] {left other : Prog ε σ α}
    {right another : Prog ε τ α}
    (yes : condition → Agrees shortLeft shortRight related final broken holds left right)
    (no : ¬condition → Agrees shortLeft shortRight related final broken holds other another) :
    Agrees shortLeft shortRight related final broken holds (if condition then left else other)
      (if condition then right else another) := by
  split
  · exact yes ‹_›
  · exact no ‹_›

theorem Agrees.mapError {left : Prog ε σ α} {right : Prog ε τ α} (rename : ε → ε)
    (agree : Agrees shortLeft shortRight related final broken holds left right) :
    Agrees shortLeft shortRight related final broken holds (mapError rename left)
      (mapError rename right) := by
  intro before after states
  have step := agree before after states
  unfold Prog.mapError
  cases runLeft : left before <;> cases runRight : right after <;> rw [runLeft, runRight] at step
  case error.error => exact Or.imp_right (fun same => ⟨congrArg rename same.1, same.2⟩) step
  all_goals exact step

theorem Agrees.onError {left : Prog ε σ α} {right : Prog ε τ α} {undo : σ → σ} {undo' : τ → τ}
    (agree : Agrees shortLeft shortRight related final broken holds left right)
    {broken' : σ → τ → Prop}
    (undone : ∀ before after, broken before after → broken' (undo before) (undo' after)) :
    Agrees shortLeft shortRight related final broken' holds (onError undo left)
      (onError undo' right) := by
  intro before after states
  have step := agree before after states
  unfold Prog.onError
  cases runLeft : left before <;> cases runRight : right after <;> rw [runLeft, runRight] at step
  case error.error => exact Or.imp_right (fun same => ⟨same.1, undone _ _ same.2⟩) step
  all_goals exact step

/-- Going on after an error asks that neither call stops short: they could then
fail for different reasons. -/
theorem Agrees.attempt {left : Prog ε σ α} {right : Prog ε τ α}
    {broken' : σ → τ → Prop} (strict : ¬shortLeft ∧ ¬shortRight)
    (agree : Agrees shortLeft shortRight related final broken holds left right)
    (recovers : ∀ before after, broken before after → final before after) :
    Agrees shortLeft shortRight related final broken'
      (fun result => ∀ value, result = .ok value → holds value) (attempt left) (attempt right) := by
  intro before after states
  have step := agree before after states
  unfold Prog.attempt
  cases runLeft : left before <;> cases runRight : right after <;> rw [runLeft, runRight] at step
  case ok.ok =>
      obtain ⟨rfl, property, states⟩ := step
      exact ⟨rfl, fun _ same => Except.ok.inj same ▸ property, states⟩
  case error.error =>
      obtain ⟨rfl, states⟩ := step.resolve_left (not_or.mpr strict)
      exact ⟨rfl, fun _ same => (by cases same), recovers _ _ states⟩
  case fault.fault => trivial
  case undefined.undefined => trivial
  case unfinished.unfinished => trivial
  all_goals first
    | exact absurd step strict.1
    | exact absurd step strict.2
    | exact absurd step (not_or.mpr strict)

/-- Two states with equal second components. -/
def Beside {ρ : Type x} (related : σ → τ → Prop) (before : σ × ρ) (after : τ × ρ) : Prop :=
  related before.1 after.1 ∧ before.2 = after.2

theorem Agrees.onFirst {ρ : Type x} {left : Prog ε σ α} {right : Prog ε τ α}
    (agree : Agrees shortLeft shortRight related final broken holds left right) :
    Agrees shortLeft shortRight (Beside (ρ := ρ) related) (Beside final) (Beside broken) holds
      (onFirst left) (onFirst right) := by
  rintro ⟨before, rest⟩ ⟨after, rest'⟩ ⟨states, same⟩
  have step := agree before after states
  unfold Prog.onFirst
  cases runLeft : left before <;> cases runRight : right after <;> rw [runLeft, runRight] at step
  case ok.ok => exact ⟨step.1, step.2.1, step.2.2, same⟩
  case error.error => exact Or.imp_right (fun equal => ⟨equal.1, equal.2, same⟩) step
  all_goals exact step

/-- Two programs that go on with what they see of their states. -/
theorem Agrees.viewed {γ δ : Type w} {left : σ → γ} {right : τ → δ} {nextLeft : γ → Prog ε σ α}
    {nextRight : δ → Prog ε τ α}
    (next : ∀ before after, related before after →
      (nextLeft (left before) before).Agree shortLeft shortRight final broken holds (nextRight (right after) after)) :
    Agrees shortLeft shortRight related final broken holds (Prog.view left >>= nextLeft)
      (Prog.view right >>= nextRight) := by
  intro before after states
  rw [view_bind, view_bind]
  exact next before after states

theorem Agrees.inPlace {ρ ρ' : Type x} {get : σ → ρ} {put : ρ → σ → σ} {get' : τ → ρ'} {put' : ρ' → τ → τ}
    {within inside outside : σ × ρ → τ × ρ' → Prop} {left : Prog ε (σ × ρ) α} {right : Prog ε (τ × ρ') α}
    (agree : Agrees shortLeft shortRight within inside outside holds left right)
    (start : ∀ before after, related before after → within (before, get before) (after, get' after))
    (returned : ∀ before after, inside before after → final (put before.2 before.1) (put' after.2 after.1))
    (failed : ∀ before after, outside before after → broken (put before.2 before.1) (put' after.2 after.1)) :
    Agrees shortLeft shortRight related final broken holds (inPlace get put left) (inPlace get' put' right) := by
  intro before after states
  have step := agree _ _ (start before after states)
  unfold Prog.inPlace
  cases runLeft : left (before, get before) <;> cases runRight : right (after, get' after) <;>
    rw [runLeft, runRight] at step
  case ok.ok => exact ⟨step.1, step.2.1, returned _ _ step.2.2⟩
  case error.error => exact Or.imp_right (fun equal => ⟨equal.1, failed _ _ equal.2⟩) step
  all_goals exact step

theorem Agrees.scratch {ρ : Type w} {start : ρ} {left : Prog ε (σ × ρ) PUnit.{w + 1}}
    {right : Prog ε (τ × ρ) PUnit.{w + 1}}
    (agree : Agrees shortLeft shortRight (Beside related) (Beside final) (Beside broken) (fun _ => True)
      left right) :
    Agrees shortLeft shortRight related final broken (fun _ => True) (scratch start left)
      (scratch start right) := by
  intro before after states
  have step := agree (before, start) (after, start) ⟨states, rfl⟩
  unfold Prog.scratch
  cases runLeft : left (before, start) <;> cases runRight : right (after, start) <;>
    rw [runLeft, runRight] at step
  case ok.ok => exact ⟨step.2.2.2, trivial, step.2.2.1⟩
  case error.error => exact Or.imp_right (fun equal => ⟨equal.1, equal.2.1⟩) step
  all_goals exact step

/-- Where both calls return, or neither may stop short, their states are inside together. -/
theorem Agrees.confine {inside : σ → Prop} {within : τ → Prop} [DecidablePred inside] [DecidablePred within]
    {left : Prog ε σ α} {right : Prog ε τ α}
    (agree : Agrees shortLeft shortRight related final broken holds left right)
    (returned : ∀ before after, final before after → (inside before ↔ within after))
    (failed : ∀ before after, broken before after → (inside before ↔ within after)) :
    Agrees shortLeft shortRight related final broken holds (confine inside left) (confine within right) := by
  intro before after states
  have step := agree before after states
  unfold Prog.confine
  cases runLeft : left before <;> cases runRight : right after <;> rw [runLeft, runRight] at step <;> dsimp only
  case ok.ok one first two second =>
    have both := returned _ _ step.2.2
    by_cases known : inside first
    · rw [if_pos known, if_pos (both.mp known)]
      exact step
    · rw [if_neg known, if_neg (mt both.mpr known)]
      trivial
  case error.error one first two second =>
    obtain short | ⟨same, states⟩ := step
    · split <;> split
      · exact .inl short
      · exact short
      · exact short
      · trivial
    · have both := failed _ _ states
      by_cases known : inside first
      · rw [if_pos known, if_pos (both.mp known)]
        exact .inr ⟨same, states⟩
      · rw [if_neg known, if_neg (mt both.mpr known)]
        trivial
  -- A call that stops short may do so beside any other one.
  case ok.error => split <;> split <;> first | exact step | exact .inr step | trivial
  case error.ok => split <;> split <;> first | exact step | exact .inl step | trivial
  case ok.fault | ok.undefined | ok.unfinished => split <;> first | exact step | exact .inr step | trivial
  case fault.ok | undefined.ok | unfinished.ok => split <;> first | exact step | exact .inl step | trivial
  case error.fault | error.undefined | error.unfinished | fault.error | undefined.error | unfinished.error =>
    split <;> first | exact step | trivial
  all_goals exact step

/-- Adds what is known of every value the left program returns. -/
theorem Agrees.such {left : Prog ε σ α} {right : Prog ε τ α} {known : α → Prop}
    (agree : Agrees shortLeft shortRight related final broken holds left right)
    (spec : ∀ before after, related before after →
      ∀ value state, left before = .ok value state → known value) :
    Agrees shortLeft shortRight related final broken (fun value => holds value ∧ known value) left
      right := by
  intro before after states
  have step := agree before after states
  cases runLeft : left before <;> cases runRight : right after <;> rw [runLeft, runRight] at step
  case ok.ok => exact ⟨step.1, ⟨step.2.1, spec _ _ states _ _ runLeft⟩, step.2.2⟩
  all_goals exact step

/-- Two programs that agree with a third one, which never stops short itself,
agree with each other. -/
theorem Agrees.through {ρ : Type x} (related final broken : σ → τ → Prop) {left : Prog ε σ α} {right : Prog ε τ α}
    {reference : Prog ε ρ α} {relatedLeft finalLeft brokenLeft : σ → ρ → Prop}
    {relatedRight finalRight brokenRight : τ → ρ → Prop}
    (agreeLeft : Agrees shortLeft False relatedLeft finalLeft brokenLeft holds left reference)
    (agreeRight : Agrees shortRight False relatedRight finalRight brokenRight holds right reference)
    (start : ∀ s t, related s t → ∃ r, relatedLeft s r ∧ relatedRight t r)
    (finish : ∀ s t r, finalLeft s r → finalRight t r → final s t)
    (breaks : ∀ s t r, brokenLeft s r → brokenRight t r → broken s t) :
    Agrees shortLeft shortRight related final broken holds left right := by
  intro s t states
  obtain ⟨r, startLeft, startRight⟩ := start s t states
  have stepLeft := agreeLeft s r startLeft
  have stepRight := agreeRight t r startRight
  cases runLeft : left s <;> cases runRight : right t <;> cases run : reference r <;>
    rw [runLeft, run] at stepLeft <;> rw [runRight, run] at stepRight <;>
    simp only [Outcome.Agree, or_false] at stepLeft stepRight ⊢
  case ok.ok.ok =>
      obtain ⟨rfl, property, statesLeft⟩ := stepLeft
      obtain ⟨rfl, -, statesRight⟩ := stepRight
      exact ⟨rfl, property, finish _ _ _ statesLeft statesRight⟩
  case error.error.error =>
      rcases stepLeft with stops | ⟨rfl, statesLeft⟩
      · exact .inl (.inl stops)
      rcases stepRight with stops | ⟨rfl, statesRight⟩
      · exact .inl (.inr stops)
      exact .inr ⟨rfl, breaks _ _ _ statesLeft statesRight⟩
  case error.error.ok => exact .inl (.inl stepLeft)
  case error.error.fault => exact .inl (.inl stepLeft)
  case error.error.undefined => exact .inl (.inl stepLeft)
  case error.error.unfinished => exact .inl (.inl stepLeft)
  all_goals first
    | exact stepLeft
    | exact stepRight
    | exact .inl stepLeft
    | exact .inr stepRight

/-- A run compared with itself: an invariant and a property of the value, for
every call that succeeds. -/
theorem Agrees.self {program : Prog ε σ α} {related final broken : σ → σ → Prop}
    (agree : Agrees shortLeft shortRight related final broken holds program program)
    {before after : σ} {value : α}
    (start : related before before) (returned : program before = .ok value after) :
    holds value ∧ final after after := by
  have step := agree before before start
  rw [returned] at step
  exact step.2

end Prog

end IQuik.Program
