import IQuik.Program.Outcome

namespace IQuik.Program

universe u v w x

/-! # What a call leaves behind in whatever way it returns -/

namespace Prog

variable {ε : Type u} {σ : Type v} {α β : Type w} {keeps : σ → σ → Prop}

/-- The states before and after a call that returns are related. -/
def Keeps (keeps : σ → σ → Prop) (program : Prog ε σ α) : Prop :=
  ∀ before after, (program before).state? = some after → keeps before after

/-- Nothing done keeps, and what two steps keep both of them keep together. -/
structure Frame (keeps : σ → σ → Prop) : Prop where
  refl : ∀ s, keeps s s
  trans : ∀ {s t u}, keeps s t → keeps t u → keeps s u

/-- To have the same parts is a frame. -/
theorem Frame.of_same (part : σ → α) : Frame fun before after => part after = part before :=
  ⟨fun _ => rfl, fun first second => second.trans first⟩

theorem Keeps.mono {weak : σ → σ → Prop} {program : Prog ε σ α} (kept : Keeps keeps program)
    (weaker : ∀ before after, keeps before after → weak before after) : Keeps weak program :=
  fun before after returned => weaker before after (kept before after returned)

section Rules

variable (frame : Frame keeps)
include frame

theorem Keeps.pure (value : α) : Keeps keeps (pure value : Prog ε σ α) := by
  intro before after returned
  cases returned
  exact frame.refl before

theorem Keeps.fail (code : ε) : Keeps keeps (fail code : Prog ε σ α) := by
  intro before after returned
  cases returned
  exact frame.refl before

theorem Keeps.view (field : σ → α) : Keeps keeps (view field : Prog ε σ α) := by
  intro before after returned
  cases returned
  exact frame.refl before

theorem Keeps.demand (condition : Prop) [Decidable condition] :
    Keeps keeps (demand condition : Prog ε σ PUnit) := by
  by_cases known : condition
  · rw [demand_pos known]
    exact Keeps.pure frame _
  · rw [demand_neg known]
    intro before after returned
    cases returned

theorem Keeps.arith (condition : Prop) [Decidable condition] :
    Keeps keeps (arith condition : Prog ε σ PUnit) := by
  by_cases known : condition
  · rw [arith_pos known]
    exact Keeps.pure frame _
  · rw [arith_neg known]
    intro before after returned
    cases returned

theorem Keeps.defined (value : Option α) : Keeps keeps (defined value : Prog ε σ α) := by
  cases value with
  | none =>
      intro before after returned
      cases returned
  | some known => exact Keeps.pure frame known

theorem Keeps.bind {first : Prog ε σ α} {next : α → Prog ε σ β} (begins : Keeps keeps first)
    (goes : ∀ value, Keeps keeps (next value)) : Keeps keeps (first >>= next) := by
  intro before after returned
  obtain ⟨code, failed⟩ | ⟨value, middle, run, rest⟩ := bind_state?.mp returned
  · exact begins before after (by rw [failed]; rfl)
  · exact frame.trans (begins before middle (by rw [run]; rfl)) (goes value middle after rest)

theorem Keeps.onError {undo : σ → σ} {program : Prog ε σ α} (kept : Keeps keeps program)
    (undone : ∀ s, keeps s (undo s)) : Keeps keeps (onError undo program) := by
  intro before after returned
  have step := kept before
  simp only [Prog.onError] at returned
  cases run : program before with
  | ok value final =>
      rw [run] at returned step
      exact step after returned
  | error code final =>
      rw [run] at returned step
      cases returned
      exact frame.trans (step final rfl) (undone final)
  | fault | undefined | unfinished =>
      rw [run] at returned
      cases returned

end Rules

theorem Keeps.unfinished : Keeps keeps (unfinished : Prog ε σ α) := by
  intro before after returned
  cases returned

theorem Keeps.update {store : σ → σ} (stores : ∀ s, keeps s (store s)) :
    Keeps keeps (update store : Prog ε σ PUnit) := by
  intro before after returned
  cases returned
  exact stores before

theorem Keeps.ite {condition : Prop} [Decidable condition] {yes no : Prog ε σ α}
    (holds : Keeps keeps yes) (fails : Keeps keeps no) :
    Keeps keeps (if condition then yes else no) := by
  split
  · exact holds
  · exact fails

theorem Keeps.mapError {program : Prog ε σ α} (rename : ε → ε) (kept : Keeps keeps program) :
    Keeps keeps (mapError rename program) := by
  intro before after returned
  have step := kept before
  simp only [Prog.mapError] at returned
  cases run : program before <;> rw [run] at returned step <;> cases returned <;> exact step _ rfl

theorem Keeps.attempt {program : Prog ε σ α} (kept : Keeps keeps program) :
    Keeps keeps (attempt program) := by
  intro before after returned
  have step := kept before
  simp only [Prog.attempt] at returned
  cases run : program before <;> rw [run] at returned step <;> cases returned <;> exact step _ rfl

theorem Keeps.confine {inside : σ → Prop} [DecidablePred inside] {program : Prog ε σ α}
    (kept : Keeps keeps program) : Keeps keeps (confine inside program) := by
  intro before after returned
  have step := kept before
  simp only [Prog.confine] at returned
  cases run : program before <;> rw [run] at returned step <;> dsimp only at returned
  case ok | error =>
    split at returned
    · cases returned
      exact step _ rfl
    · cases returned
  all_goals cases returned

theorem Keeps.onFirst {τ : Type x} {program : Prog ε σ α} (kept : Keeps keeps program) :
    Keeps (fun before after : σ × τ => keeps before.1 after.1) (onFirst program) := by
  intro before after returned
  have step := kept before.1
  simp only [Prog.onFirst] at returned
  cases run : program before.1 <;> rw [run] at returned step <;> cases returned <;>
    exact step _ rfl

theorem Keeps.focus {τ : Type x} {get : σ → τ} {put : τ → σ → σ} {part : τ → τ → Prop} {program : Prog ε τ α}
    (kept : Keeps part program) (puts : ∀ s after, part (get s) after → keeps s (put after s)) :
    Keeps keeps (focus get put program) := by
  intro before after returned
  have step := kept (get before)
  simp only [Prog.focus] at returned
  cases run : program (get before) <;> rw [run] at returned step <;> cases returned <;>
    exact puts _ _ (step _ rfl)

theorem Keeps.inPlace {τ : Type x} {get : σ → τ} {put : τ → σ → σ} {program : Prog ε (σ × τ) α}
    (frame : Frame keeps) (kept : Keeps (fun before after : σ × τ => keeps before.1 after.1) program)
    (puts : ∀ part s, keeps s (put part s)) : Keeps keeps (inPlace get put program) := by
  intro before after returned
  have step := kept (before, get before)
  simp only [Prog.inPlace] at returned
  cases run : program (before, get before) <;> rw [run] at returned step <;> cases returned <;>
    exact frame.trans (step _ rfl) (puts _ _)

theorem Keeps.scratch {τ : Type w} {start : τ} {program : Prog ε (σ × τ) PUnit.{w + 1}}
    (kept : Keeps (fun before after : σ × τ => keeps before.1 after.1) program) :
    Keeps keeps (scratch start program) := by
  intro before after returned
  have step := kept (before, start)
  simp only [Prog.scratch] at returned
  cases run : program (before, start) <;> rw [run] at returned step <;> cases returned <;>
    exact step _ rfl

end Prog

end IQuik.Program
