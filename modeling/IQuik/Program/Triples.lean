import IQuik.Program.Outcome

namespace IQuik.Program

universe u v w

/-! # Runs that succeed, and runs that fail -/

namespace Prog

variable {ε : Type u} {σ : Type v} {α β : Type w} {pre strong : σ → Prop} {middle : α → σ → Prop}
  {post : β → σ → Prop} {failed : σ → Prop} {first : Prog ε σ α} {next : α → Prog ε σ β}

/-- From every state with `pre` the program succeeds, with `post`. -/
def Meets (pre : σ → Prop) (program : Prog ε σ α) (post : α → σ → Prop) : Prop :=
  ∀ state, pre state → ∃ value after, program state = .ok value after ∧ post value after

/-- From every state with `pre` the program returns an error, with `post`. -/
def Fails (pre : σ → Prop) (program : Prog ε σ α) (post : σ → Prop) : Prop :=
  ∀ state, pre state → ∃ code after, program state = .error code after ∧ post after

theorem Meets.pure {value : α} (holds : ∀ state, pre state → middle value state) :
    Meets pre (pure value : Prog ε σ α) middle :=
  fun state known => ⟨value, state, rfl, holds state known⟩

theorem Meets.bind (begins : Meets pre first middle)
    (goes : ∀ value, Meets (middle value) (next value) post) : Meets pre (first >>= next) post := by
  intro state known
  obtain ⟨value, between, run, holds⟩ := begins state known
  obtain ⟨result, after, rest, final⟩ := goes value between holds
  exact ⟨result, after, by rw [bind_run_ok run, rest], final⟩

/-- `bind` after a step whose value is known. -/
theorem Meets.bindOf {holds : α → Prop} {kept : σ → Prop}
    (begins : Meets pre first fun value state => holds value ∧ kept state)
    (goes : ∀ value, holds value → Meets kept (next value) post) :
    Meets pre (first >>= next) post :=
  begins.bind fun value state known => goes value known.1 state known.2

theorem Meets.conseq {weak : α → σ → Prop} (meets : Meets pre first middle)
    (before : ∀ state, strong state → pre state)
    (after : ∀ value state, middle value state → weak value state) : Meets strong first weak := by
  intro state known
  obtain ⟨value, final, run, holds⟩ := meets state (before state known)
  exact ⟨value, final, run, after value final holds⟩

theorem Fails.fail {code : ε} (holds : ∀ state, pre state → failed state) :
    Fails pre (fail code : Prog ε σ α) failed :=
  fun state known => ⟨code, state, rfl, holds state known⟩

theorem Fails.bind (fails : Fails pre first failed) : Fails pre (first >>= next) failed := by
  intro state known
  obtain ⟨code, after, run, holds⟩ := fails state known
  exact ⟨code, after, bind_run_error run, holds⟩

end Prog

end IQuik.Program
