import IQuik.Program.Runs

namespace IQuik.Program

open StateTransition

/-! # Code with labels

Instructions of any kind, each of which goes on, branches to a label or returns.
-/

universe u v w

/-- What comes after an instruction. -/
inductive Flow (Label : Type u) (σ : Type v) where
  | next (state : σ)
  | jump (target : Label) (state : σ)
  | back (state : σ)

/-- The state that an instruction leaves. -/
def Flow.state {Label : Type u} {σ : Type v} : Flow Label σ → σ
  | .next state | .jump _ state | .back state => state

/-- A conditional branch. -/
def Flow.jumpIf {Label : Type u} {σ : Type v} (condition : Bool) (target : Label) (state : σ) : Flow Label σ :=
  if condition then .jump target state else .next state

/-- A conditional return. -/
def Flow.backIf {Label : Type u} {σ : Type v} (condition : Bool) (returned state : σ) : Flow Label σ :=
  if condition then .back returned else .next state

theorem Flow.jumpIf_state {Label : Type u} {σ : Type v} (condition : Bool) (target : Label) (state : σ) :
    (jumpIf condition target state).state = state := by
  cases condition <;> rfl

/-- Labels with the code behind each, in the order of the source. -/
abbrev Code (Label : Type u) (Instr : Type w) := List (Label × List Instr)

/-- In front of the code that is still to run, or back in the caller. -/
inductive Position (Instr : Type w) (σ : Type v) where
  | running (rest : List Instr) (state : σ)
  | returned (state : σ)

def Position.state {Instr : Type w} {σ : Type v} : Position Instr σ → σ
  | .running _ state | .returned state => state

namespace Code

variable {Label : Type u} {Instr : Type w} {σ : Type v} [DecidableEq Label]

/-- The code from a label on. -/
def from' (code : Code Label Instr) (label : Label) : List Instr :=
  (code.dropWhile fun part => part.1 ≠ label).flatMap Prod.snd

variable (exec : Instr → σ → Flow Label σ) (code : Code Label Instr)

def goOn (rest : List Instr) : Flow Label σ → Position Instr σ
  | .next state => .running rest state
  | .jump target state => .running (code.from' target) state
  | .back state => .returned state

def step : Position Instr σ → Option (Position Instr σ)
  | .returned _ => none
  | .running [] _ => none
  | .running (instr :: rest) state => some (code.goOn rest (exec instr state))

/-- A call of the code at `entry` comes back. -/
def Returns (entry : Label) (before after : σ) : Prop :=
  .returned after ∈ eval (code.step exec) (.running (code.from' entry) before)

variable {exec code} {entry target : Label} {before after state next : σ} {instr : Instr} {rest : List Instr}
  {condition : Bool} {Goal : Position Instr σ → Prop}

theorem returns_of_eventually {Good : σ → Prop}
    (eventually : Eventually (code.step exec) (fun position => ∃ final, position = .returned final ∧ Good final)
      (.running (code.from' entry) before)) : ∃ final, code.Returns exec entry before final ∧ Good final := by
  obtain ⟨finish, ends, final, rfl, good⟩ := eventually.ends (by rintro _ ⟨final, rfl, -⟩; rfl)
  exact ⟨final, ends, good⟩

/-! ## Rules -/

theorem straight (runs : exec instr state = .next next)
    (later : Eventually (code.step exec) Goal (.running rest next)) :
    Eventually (code.step exec) Goal (.running (instr :: rest) state) :=
  later.after (congrArg (some ∘ code.goOn rest) runs)

theorem jump (runs : exec instr state = .jump target next)
    (later : Eventually (code.step exec) Goal (.running (code.from' target) next)) :
    Eventually (code.step exec) Goal (.running (instr :: rest) state) :=
  later.after (congrArg (some ∘ code.goOn rest) runs)

theorem back (runs : exec instr state = .back next) (later : Goal (.returned next)) :
    Eventually (code.step exec) Goal (.running (instr :: rest) state) :=
  (Eventually.now later).after (congrArg (some ∘ code.goOn rest) runs)

/-- A conditional branch that is taken. -/
theorem taken (runs : exec instr state = .jumpIf condition target next) (yes : condition = true)
    (later : Eventually (code.step exec) Goal (.running (code.from' target) next)) :
    Eventually (code.step exec) Goal (.running (instr :: rest) state) := by
  subst yes
  exact jump runs later

/-- A conditional branch that is not taken. -/
theorem passed (runs : exec instr state = .jumpIf condition target next) (no : condition = false)
    (later : Eventually (code.step exec) Goal (.running rest next)) :
    Eventually (code.step exec) Goal (.running (instr :: rest) state) := by
  subst no
  exact straight runs later

/-- The branch at the end of a round, which goes back on a condition. -/
theorem branches {Holds : σ → Prop} {again more : Prop} [Decidable again] [Decidable more]
    (runs : exec instr state = .jumpIf again target next) (same : again ↔ more) (holds : Holds next) :
    Eventually (code.step exec)
      (fun position => ∃ next, position = .running (if more then code.from' target else rest) next ∧ Holds next)
      (.running (instr :: rest) state) := by
  by_cases goesOn : again
  · exact taken runs (decide_eq_true goesOn) (.now ⟨next, by rw [if_pos (same.mp goesOn)], holds⟩)
  · exact passed runs (decide_eq_false goesOn) (.now ⟨next, by rw [if_neg (mt same.mpr goesOn)], holds⟩)

theorem comesBack (runs : exec instr state = .backIf condition after next) (yes : condition = true)
    (later : Goal (.returned after)) : Eventually (code.step exec) Goal (.running (instr :: rest) state) := by
  subst yes
  exact back runs later

theorem stays (runs : exec instr state = .backIf condition after next) (no : condition = false)
    (later : Eventually (code.step exec) Goal (.running rest next)) :
    Eventually (code.step exec) Goal (.running (instr :: rest) state) := by
  subst no
  exact straight runs later

/-- A loop that begins at a label: `Inv done` holds when it comes there for the
`done`th time, and from the last time on it leads to the goal. -/
theorem loop (Inv : Nat → σ → Prop) (count : Nat) {label : Label}
    (round : ∀ done < count, ∀ state, Inv done state → Eventually (code.step exec)
      (fun position => ∃ next, position = .running (code.from' label) next ∧ Inv (done + 1) next)
      (.running (code.from' label) state))
    (leave : ∀ state, Inv count state → Eventually (code.step exec) Goal (.running (code.from' label) state))
    (first : Inv 0 state) : Eventually (code.step exec) Goal (.running (code.from' label) state) := by
  let Here (done : Nat) (position : Position Instr σ) : Prop :=
    ∃ state, position = .running (code.from' label) state ∧ Inv done state
  have start : Here 0 (.running (code.from' label) state) := ⟨state, rfl, first⟩
  refine (Eventually.rounds Here count ?_ start).bind ?_
  · rintro done early _ ⟨state, rfl, holds⟩
    exact round done early state holds
  · rintro _ ⟨state, rfl, holds⟩
    exact leave state holds

/-- A loop whose last instruction branches back: the body leaves it in the last of
its rounds. -/
theorem rounds (Inv : Nat → σ → Prop) (behind : List Instr) {label : Label} {count : Nat} (some' : 0 < count)
    (round : ∀ done < count, ∀ state, Inv done state → Eventually (code.step exec)
      (fun position => ∃ next, position = .running (if done + 1 < count then code.from' label else behind) next ∧
        Inv (done + 1) next)
      (.running (code.from' label) state))
    (leave : ∀ state, Inv count state → Eventually (code.step exec) Goal (.running behind state))
    (first : Inv 0 state) : Eventually (code.step exec) Goal (.running (code.from' label) state) := by
  let Here (done : Nat) (position : Position Instr σ) : Prop :=
    ∃ state, position = .running (if done < count then code.from' label else behind) state ∧ Inv done state
  have start : Here 0 (.running (code.from' label) state) := ⟨state, by rw [if_pos some'], first⟩
  refine (Eventually.rounds Here count ?_ start).bind ?_
  · rintro done early _ ⟨state, rfl, holds⟩
    rw [if_pos early]
    exact round done early state holds
  · rintro _ ⟨state, rfl, holds⟩
    rw [if_neg (Nat.lt_irrefl count)]
    exact leave state holds

/-! ## What no instruction changes -/

theorem mem_of_mem_from {label : Label} (member : instr ∈ code.from' label) :
    ∃ part ∈ code, instr ∈ part.2 := by
  obtain ⟨part, later, inside⟩ := List.mem_flatMap.mp member
  exact ⟨part, (List.dropWhile_suffix _).subset later, inside⟩

/-- Whatever each instruction of the code keeps, every call that comes back has kept. -/
theorem Returns.keeps {Kept : σ → Prop} (returns : code.Returns exec entry before after)
    (each : ∀ part ∈ code, ∀ instr ∈ part.2, ∀ state, Kept state → Kept (exec instr state).state)
    (first : Kept before) : Kept after := by
  let Inside (position : Position Instr σ) : Prop := Kept position.state ∧
    ∀ rest state, position = .running rest state → ∀ instr ∈ rest, ∃ part ∈ code, instr ∈ part.2
  have start : Inside (.running (code.from' entry) before) := by
    refine ⟨first, ?_⟩
    rintro rest state ⟨rfl, rfl⟩ instr member
    exact mem_of_mem_from member
  have steps (position later : Position Instr σ) (taken : code.step exec position = some later)
      (holds : Inside position) : Inside later := by
    cases position with
    | returned state => cases taken
    | running rest state =>
        cases rest with
        | nil => cases taken
        | cons instr rest =>
            obtain ⟨kept, inside⟩ := holds
            obtain ⟨part, known, member⟩ := inside _ _ rfl instr (.head _)
            have keeps := each part known instr member state kept
            rw [step, Option.some.injEq] at taken
            subst taken
            cases flow : exec instr state with
            | next after =>
                rw [flow] at keeps
                refine ⟨keeps, ?_⟩
                rintro _ _ ⟨rfl, rfl⟩ other behind
                exact inside _ _ rfl other (.tail _ behind)
            | jump target after =>
                rw [flow] at keeps
                refine ⟨keeps, ?_⟩
                rintro _ _ ⟨rfl, rfl⟩ other behind
                exact mem_of_mem_from behind
            | back after =>
                rw [flow] at keeps
                exact ⟨keeps, nofun⟩
  exact (reaches_keeps steps (mem_eval.mp returns).1 start).1

/-- What holds wherever an instruction comes back, holds behind every call. -/
theorem Returns.at_back {Good : σ → Prop} (returns : code.Returns exec entry before after)
    (each : ∀ instr state final, exec instr state = .back final → Good final) : Good after := by
  let Inside (position : Position Instr σ) : Prop := ∀ final, position = .returned final → Good final
  have steps (position later : Position Instr σ) (taken : code.step exec position = some later) :
      Inside position → Inside later := by
    rintro - final rfl
    rcases position with ⟨_ | ⟨instr, rest⟩, state⟩ | state
    · cases taken
    · rw [step, Option.some.injEq] at taken
      cases flow : exec instr state with
      | back after =>
          rw [flow] at taken
          cases taken
          exact each instr state final flow
      | next after =>
          rw [flow] at taken
          cases taken
      | jump target after =>
          rw [flow] at taken
          cases taken
    · cases taken
  have start : Inside (.running (code.from' entry) before) := fun final same => by cases same
  exact reaches_keeps steps (mem_eval.mp returns).1 start after rfl

end Code

end IQuik.Program
