import Mathlib.Data.List.Basic

namespace IQuik.Program

universe u v w

/-! # Programs that look at a memory

Where such a program looks next depends on what it has seen. -/

inductive Inspection (Address : Type u) (Cell : Type v) (α : Type w) where
  | done (value : α)
  | look (address : Address) (next : Cell → Inspection Address Cell α)

namespace Inspection

variable {Address : Type u} {Cell : Type v} {α β : Type w} {memory other : Address → Cell}

def andThen : Inspection Address Cell α → (α → Inspection Address Cell β) → Inspection Address Cell β
  | done value, next => next value
  | look address rest, next => look address fun cell => (rest cell).andThen next

instance : Monad (Inspection Address Cell) where
  pure := done
  bind := andThen

/-- What the program finds. -/
def value (memory : Address → Cell) : Inspection Address Cell α → α
  | done value => value
  | look address next => (next (memory address)).value memory

/-- Where it looks, one address after the other. -/
def seen (memory : Address → Cell) : Inspection Address Cell α → List Address
  | done _ => []
  | look address next => address :: (next (memory address)).seen memory

@[simp] theorem value_pure (result : α) : (pure result : Inspection Address Cell α).value memory = result := rfl

@[simp] theorem value_bind (first : Inspection Address Cell α) (next : α → Inspection Address Cell β) :
    (first >>= next).value memory = (next (first.value memory)).value memory := by
  induction first with
  | done result => rfl
  | look address rest ih => exact ih (memory address)

theorem seen_bind (first : Inspection Address Cell α) (next : α → Inspection Address Cell β) :
    (first >>= next).seen memory = first.seen memory ++ (next (first.value memory)).seen memory := by
  induction first with
  | done result => rfl
  | look address rest ih => exact congrArg (address :: ·) (ih (memory address))

/-- The program looks only at addresses that are `inside`. -/
def Stays (inside : Address → Prop) (memory : Address → Cell) (program : Inspection Address Cell α) : Prop :=
  ∀ address ∈ program.seen memory, inside address

variable {inside : Address → Prop}

@[simp] theorem stays_pure (result : α) : Stays inside memory (pure result : Inspection Address Cell α) :=
  fun _ mem => nomatch mem

@[simp] theorem stays_look (address : Address) (next : Cell → Inspection Address Cell α) :
    Stays inside memory (look address next) ↔ inside address ∧ Stays inside memory (next (memory address)) :=
  List.forall_mem_cons

@[simp] theorem stays_bind (first : Inspection Address Cell α) (next : α → Inspection Address Cell β) :
    Stays inside memory (first >>= next) ↔
      Stays inside memory first ∧ Stays inside memory (next (first.value memory)) := by
  rw [Stays, seen_bind]
  exact List.forall_mem_append

/-- What is not looked at does not matter. -/
theorem Stays.value_eq {program : Inspection Address Cell α} (stays : Stays inside memory program)
    (agree : ∀ address, inside address → memory address = other address) :
    program.value memory = program.value other := by
  induction program with
  | done result => rfl
  | look address next ih =>
      obtain ⟨here, rest⟩ := (stays_look address next).mp stays
      have same : memory address = other address := agree address here
      rw [value, value, ← same]
      exact ih (memory address) rest

end Inspection

end IQuik.Program
