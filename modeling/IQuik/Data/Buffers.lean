import IQuik.Data.Strings
import Mathlib.Data.List.TakeWhile

namespace IQuik.Data

/-! # Strings in a buffer -/

/-- The contents of a buffer, by index. -/
abbrev Cells := Nat → UInt8

namespace Cells

/-- The bytes from `place` on are those of `s`. -/
def Holds (cells : Cells) (place : Nat) (s : Str) : Prop :=
  ∀ i (inside : i < s.length), cells (place + i) = s[i]

/-- Stores the bytes of `s` from `place` on. -/
def store (cells : Cells) (place : Nat) (s : Str) : Cells := fun i =>
  if place ≤ i ∧ i < place + s.length then s.getD (i - place) 0 else cells i

/-- The string at `place`, if its NUL is among the `room` bytes there. -/
def string (cells : Cells) : (room place : Nat) → Option Str
  | 0, _ => none
  | room + 1, place =>
      if cells place = 0 then some [] else (string cells room (place + 1)).map (cells place :: ·)

variable {cells : Cells} {place : Nat} {s t : Str}

theorem holds_nil (cells : Cells) (place : Nat) : cells.Holds place [] := fun _ inside => absurd inside (Nat.not_lt_zero _)

theorem store_inside {i : Nat} (inside : i < s.length) : cells.store place s (place + i) = s[i] := by
  rw [store, if_pos ⟨Nat.le_add_right _ _, Nat.add_lt_add_left inside _⟩, Nat.add_sub_cancel_left,
    List.getD_eq_getElem?_getD, List.getElem?_eq_getElem inside, Option.getD_some]

theorem store_outside {i : Nat} (outside : i < place ∨ place + s.length ≤ i) : cells.store place s i = cells i := by
  rw [store, if_neg]
  omega

theorem holds_store (cells : Cells) (place : Nat) (s : Str) : (cells.store place s).Holds place s :=
  fun _ inside => store_inside inside

/-- What is stored behind a string does not change it. -/
theorem Holds.store_behind (holds : cells.Holds place s) {behind : Nat} (above : place + s.length ≤ behind) (t : Str) :
    (cells.store behind t).Holds place s := by
  intro i inside
  rw [store_outside (.inl (by omega))]
  exact holds i inside

theorem Holds.append (holds : cells.Holds place s) (more : cells.Holds (place + s.length) t) :
    cells.Holds place (s ++ t) := by
  intro i inside
  rw [List.length_append] at inside
  by_cases first : i < s.length
  · rw [List.getElem_append_left first]
    exact holds i first
  · rw [List.getElem_append_right (Nat.not_lt.mp first)]
    have second := more (i - s.length) (by omega)
    rwa [show place + s.length + (i - s.length) = place + i by omega] at second

theorem Holds.front (holds : cells.Holds place (s ++ t)) : cells.Holds place s := by
  intro i inside
  have whole := holds i (by rw [List.length_append]; omega)
  rwa [List.getElem_append_left inside] at whole

theorem Holds.back (holds : cells.Holds place (s ++ t)) : cells.Holds (place + s.length) t := by
  intro i inside
  have whole := holds (s.length + i) (by rw [List.length_append]; omega)
  rw [← Nat.add_assoc, List.getElem_append_right (Nat.le_add_right _ _)] at whole
  simpa using whole

theorem Holds.dropLast (holds : cells.Holds place s) : cells.Holds place s.dropLast := by
  intro i inside
  rw [List.length_dropLast] at inside
  rw [List.getElem_dropLast]
  exact holds i (by omega)

theorem Holds.extend (holds : cells.Holds place s) (t : Str) :
    (cells.store (place + s.length) t).Holds place (s ++ t) :=
  (holds.store_behind (Nat.le_refl _) t).append (holds_store _ _ t)

/-- Up to its NUL a string is read back. -/
theorem Holds.string {room : Nat} (holds : cells.Holds place s) (ends : cells (place + s.length) = 0)
    (fits : s.length < room) : cells.string room place = some (s.takeWhile (· ≠ 0)) := by
  induction s generalizing place room with
  | nil =>
      obtain ⟨room, rfl⟩ : ∃ less, room = less + 1 := ⟨room - 1, by simp at fits; omega⟩
      rw [Cells.string, if_pos (by simpa using ends)]
      rfl
  | cons c s ih =>
      rw [List.length_cons] at fits
      obtain ⟨room, rfl⟩ : ∃ less, room = less + 1 := ⟨room - 1, by omega⟩
      have first : cells place = c := holds 0 (Nat.succ_pos _)
      have rest : cells.Holds (place + 1) s := by
        intro i inside
        rw [Nat.add_assoc, Nat.add_comm 1 i]
        exact holds (i + 1) (Nat.succ_lt_succ inside)
      rw [Cells.string, first]
      by_cases nul : c = 0
      · rw [if_pos nul, List.takeWhile_cons_of_neg (by simp [nul])]
      · rw [if_neg nul, List.takeWhile_cons_of_pos (by simp [nul]), ih rest ?_ (by omega)]
        · rfl
        · rwa [List.length_cons, Nat.add_comm s.length 1, ← Nat.add_assoc] at ends

/-- With a NUL behind it, a string without one is read back whole. -/
theorem Holds.string_whole {room : Nat} (holds : cells.Holds place (s ++ [0])) (noNul : ∀ c ∈ s, c ≠ 0)
    (fits : s.length < room) : cells.string room place = some s := by
  have ends : cells (place + s.length) = 0 := holds.back 0 Nat.one_pos
  have whole : s.takeWhile (· ≠ 0) = s :=
    List.takeWhile_eq_self_iff.mpr fun c mem => decide_eq_true (noNul c mem)
  rw [holds.front.string ends fits, whole]

end Cells

end IQuik.Data
