import IQuik.PowerPC.Instructions
import IQuik.Data.Moves
import Mathlib.Data.UInt

namespace IQuik.PowerPC

open IQuik.Data

/-! # Bytes moved within memory -/

/-- The address `offset` bytes behind `base`. -/
def place (base : Word) (offset : Nat) : Word := base + UInt32.ofNat offset

theorem place_zero (base : Word) : place base 0 = base := UInt32.add_zero base

theorem place_place (base : Word) (offset more : Nat) : place (place base offset) more = place base (offset + more) := by
  rw [place, place, place, UInt32.ofNat_add, UInt32.add_assoc]

theorem place_step {address base : Word} {offset : Nat} (here : address = place base offset) (more : Nat) :
    address + UInt32.ofNat more = place base (offset + more) := by
  rw [here]
  exact place_place base offset more

/-- A pointer that is `ahead` bytes before a place moves on. -/
theorem place_advance {address ahead base : Word} {offset : Nat} (here : address + ahead = place base offset)
    (more : Nat) : address + UInt32.ofNat more + ahead = place base (offset + more) := by
  rw [add_right_comm]
  exact place_step here more

theorem place_retreat {address base : Word} {offset : Nat} (less : Nat)
    (here : address = place base (offset + less)) :
    address + -UInt32.ofNat less = place base offset := by
  rw [here, ← place_place, place, add_neg_cancel_right]

theorem place_toNat {base : Word} {offset : Nat} (fits : base.toNat + offset < 2 ^ 32) :
    (place base offset).toNat = base.toNat + offset := by
  rw [place, UInt32.toNat_add, UInt32.toNat_ofNat']
  omega

/-- Places at different offsets differ. -/
theorem place_inj {base : Word} {i j : Nat} (first : i < 2 ^ 32) (second : j < 2 ^ 32) :
    place base i = place base j ↔ i = j := by
  rw [place, place, UInt32.add_right_inj, ← UInt32.toNat_inj, UInt32.toNat_ofNat', UInt32.toNat_ofNat',
    Nat.mod_eq_of_lt first, Nat.mod_eq_of_lt second]

/-- The bytes `low` to `high` behind `src` stand behind `dst` too. -/
def Memory.moved (mem : Memory) (dst src : Word) (low high : Nat) : Memory :=
  Data.moved mem dst src fun offset => low ≤ offset.toNat ∧ offset.toNat < high

theorem ofNat_eq_zero {number : Nat} (fits : number < 2 ^ 32) : UInt32.ofNat number = 0 ↔ number = 0 := by
  rw [← UInt32.toNat_inj, UInt32.toNat_ofNat', Nat.mod_eq_of_lt fits]
  rfl

theorem ofNat_lt {left right : Nat} (fits : left < 2 ^ 32) (fits' : right < 2 ^ 32) :
    UInt32.ofNat left < UInt32.ofNat right ↔ left < right := by
  rw [UInt32.lt_iff_toNat_lt, UInt32.toNat_ofNat', UInt32.toNat_ofNat', Nat.mod_eq_of_lt fits, Nat.mod_eq_of_lt fits']

/-! ## Words and their bytes -/

section Bytes

variable (mem other : Memory) (address source : Word)

theorem word_first : (mem.word address >>> 24).toUInt8 = mem address := by
  apply UInt8.toBitVec_inj.mp
  ext i inside
  simp [Memory.word]
  grind

theorem word_second : (mem.word address >>> 16).toUInt8 = mem (address + 1) := by
  apply UInt8.toBitVec_inj.mp
  ext i inside
  simp [Memory.word]
  grind

theorem word_third : (mem.word address >>> 8).toUInt8 = mem (address + 2) := by
  apply UInt8.toBitVec_inj.mp
  ext i inside
  simp [Memory.word]
  grind

theorem word_fourth : (mem.word address).toUInt8 = mem (address + 3) := by
  apply UInt8.toBitVec_inj.mp
  ext i inside
  simp [Memory.word]

theorem word_store (value : Word) : (mem.store address value).word address = value := by
  have second : address + 1 ≠ address := by grind
  have third : address + 2 ≠ address ∧ address + 2 ≠ address + 1 := by grind
  have fourth : address + 3 ≠ address ∧ address + 3 ≠ address + 1 ∧ address + 3 ≠ address + 2 := by grind
  simp only [Memory.word, Memory.store, second, third.1, third.2, fourth.1, fourth.2.1, fourth.2.2, if_true, if_false]
  apply UInt32.toBitVec_inj.mp
  ext i inside
  simp [-UInt32.toUInt32_toUInt8]
  grind

variable {mem other address source} in
theorem word_congr (same : ∀ c < 4, mem (place address c) = other (place source c)) :
    mem.word address = other.word source := by
  have first := same 0 (by decide)
  rw [place_zero, place_zero] at first
  have second : mem (address + 1) = other (source + 1) := same 1 (by decide)
  have third : mem (address + 2) = other (source + 2) := same 2 (by decide)
  have fourth : mem (address + 3) = other (source + 3) := same 3 (by decide)
  simp only [Memory.word, first, second, third, fourth]

/-- A word that was loaded is stored byte by byte. -/
theorem store_word : mem.store address (other.word source) =
    Function.update (Function.update (Function.update (Function.update mem
      (place address 3) (other (place source 3)))
      (place address 2) (other (place source 2)))
      (place address 1) (other (place source 1)))
      (place address 0) (other (place source 0)) := by
  funext here
  simp only [place_zero, Memory.store, word_first, word_second, word_third, word_fourth, Function.update_apply]
  rfl

end Bytes

variable {mem : Memory} {dst src : Word} {low high low' high' i j n : Nat}

theorem moved_nothing (bound : high ≤ low) : mem.moved dst src low high = mem :=
  Data.moved_nothing fun offset moved => by omega

theorem offset_eq (bound : i < 2 ^ 32) {offset : Word} : offset = UInt32.ofNat i ↔ offset.toNat = i := by
  rw [← UInt32.toNat_inj, UInt32.toNat_ofNat', Nat.mod_eq_of_lt bound]

theorem moved_byte (bound : i < 2 ^ 32)
    (grows : ∀ k, low' ≤ k ∧ k < high' ↔ k = i ∨ (low ≤ k ∧ k < high)) :
    Function.update (mem.moved dst src low high) (place dst i) (mem (place src i)) = mem.moved dst src low' high' :=
  Data.update_moved fun offset => by rw [grows, offset_eq bound]

/-- Four bytes are moved at once. -/
theorem moved_word (bound : i + 4 ≤ 2 ^ 32)
    (grows : ∀ k, low' ≤ k ∧ k < high' ↔ (i ≤ k ∧ k < i + 4) ∨ (low ≤ k ∧ k < high)) :
    (mem.moved dst src low high).store (place dst i) (mem.word (place src i)) = mem.moved dst src low' high' := by
  -- the bytes of the word from `c` on, and what had been moved before
  let from' (c : Nat) : Memory :=
    Data.moved mem dst src fun offset =>
      (low ≤ offset.toNat ∧ offset.toNat < high) ∨ (i + c ≤ offset.toNat ∧ offset.toNat < i + 4)
  have byte (c : Nat) (small : c < 4) :
      Function.update (from' (c + 1)) (place dst (i + c)) (mem (place src (i + c))) = from' c :=
    Data.update_moved fun offset => by
      rw [offset_eq (by omega)]
      omega
  have start : mem.moved dst src low high = from' 4 := Data.moved_congr fun offset => by omega
  have finish : from' 0 = mem.moved dst src low' high' := Data.moved_congr fun offset => by
    rw [grows]
    omega
  rw [start, store_word]
  simp only [place_place, byte, Nat.reduceLT, ← finish]

theorem moved_inside (bound : j < 2 ^ 32) (above : low ≤ j) (below : j < high) :
    mem.moved dst src low high (place dst j) = mem (place src j) := by
  have offset : (UInt32.ofNat j).toNat = j := (offset_eq bound).mp rfl
  exact Data.moved_offset ⟨by rwa [offset], by rwa [offset]⟩

theorem moved_outside {address : Word} (outside : ∀ k, low ≤ k → k < high → address ≠ place dst k) :
    mem.moved dst src low high address = mem address := by
  apply Data.moved_frame
  rintro ⟨above, below⟩
  apply outside _ above below
  rw [place, UInt32.ofNat_toNat, add_sub_cancel]

/-! ## What has still to be read -/

/-- Neither range wraps around. -/
structure Ranges (dst src : Word) (n : Nat) : Prop where
  target : dst.toNat + n ≤ 2 ^ 32
  source : src.toNat + n ≤ 2 ^ 32

theorem moved_unread (ranges : Ranges dst src n) (bound : high ≤ n) (inside : j < n)
    (clear : ∀ k, low ≤ k → k < high → dst.toNat + k ≠ src.toNat + j) :
    mem.moved dst src low high (place src j) = mem (place src j) := by
  apply Data.moved_frame
  rintro ⟨above, below⟩
  have fits := ranges.target
  apply clear _ above below
  have fits' := ranges.source
  have source := place_toNat (show src.toNat + j < 2 ^ 32 by omega)
  rw [← source, UInt32.toNat_sub]
  have small := dst.toNat_lt
  have other := (place src j).toNat_lt
  rw [UInt32.toNat_sub] at below
  omega

theorem moved_unread_word (ranges : Ranges dst src n) (bound : high ≤ n) (inside : j + 4 ≤ n)
    (clear : ∀ k c, c < 4 → low ≤ k → k < high → dst.toNat + k ≠ src.toNat + (j + c)) :
    (mem.moved dst src low high).word (place src j) = mem.word (place src j) := by
  apply word_congr
  intro c small
  rw [place_place]
  exact moved_unread ranges bound (by omega) fun k above below => clear k c small above below

end IQuik.PowerPC
