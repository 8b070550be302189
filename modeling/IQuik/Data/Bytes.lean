import Mathlib.Algebra.Ring.Nat
import Mathlib.Data.List.Basic

namespace IQuik.Data

/-- The bytes of a disk, a partition or a structure, by offset. -/
abbrev Image := Nat → UInt8

namespace Image

@[irreducible] def be16 (image : Image) (offset : Nat) : Nat :=
  256 * (image offset).toNat + (image (offset + 1)).toNat

@[irreducible] def be32 (image : Image) (offset : Nat) : Nat :=
  65536 * image.be16 offset + image.be16 (offset + 2)

@[irreducible] def le16 (image : Image) (offset : Nat) : Nat :=
  256 * (image (offset + 1)).toNat + (image offset).toNat

@[irreducible] def le32 (image : Image) (offset : Nat) : Nat :=
  65536 * image.le16 (offset + 2) + image.le16 offset

/-- The first `count` bytes from `offset` on. -/
def list (image : Image) (offset : Nat) : Nat → List UInt8
  | 0 => []
  | count + 1 => image offset :: image.list (offset + 1) count

/-- The given runs of bytes, the first of them on top, over zeros. -/
def ofRuns : List (Nat × List UInt8) → Image
  | [] => fun _ => 0
  | (start, bytes) :: runs => fun offset =>
      if start ≤ offset ∧ offset < start + bytes.length then bytes.getD (offset - start) 0
      else ofRuns runs offset

theorem le16_lt (image : Image) (offset : Nat) : image.le16 offset < 65536 := by
  have low := (image offset).toNat_lt
  have high := (image (offset + 1)).toNat_lt
  unfold le16
  omega

theorem le32_lt (image : Image) (offset : Nat) : image.le32 offset < 4294967296 := by
  have low := image.le16_lt offset
  have high := image.le16_lt (offset + 2)
  unfold le32
  omega

theorem be32_lt (image : Image) (offset : Nat) : image.be32 offset < 4294967296 := by
  have bytes (index : Nat) := (image index).toNat_lt
  have first := bytes offset
  have second := bytes (offset + 1)
  have third := bytes (offset + 2)
  have fourth := bytes (offset + 2 + 1)
  unfold be32 be16
  omega

theorem le16_congr {left right : Image} {offset : Nat}
    (agree : ∀ index, offset ≤ index → index < offset + 2 → left index = right index) :
    left.le16 offset = right.le16 offset := by
  unfold le16
  rw [agree offset (by omega) (by omega), agree (offset + 1) (by omega) (by omega)]

theorem le32_congr {left right : Image} {offset : Nat}
    (agree : ∀ index, offset ≤ index → index < offset + 4 → left index = right index) :
    left.le32 offset = right.le32 offset := by
  unfold le32
  rw [le16_congr fun index lower upper => agree index lower (by omega),
    le16_congr fun index lower upper => agree index (by omega) (by omega)]

@[simp] theorem list_length (image : Image) (offset count : Nat) :
    (image.list offset count).length = count := by
  induction count generalizing offset with
  | zero => rfl
  | succ count ih => simp [list, ih]

theorem list_congr {left right : Image} {offset count : Nat}
    (agree : ∀ index, offset ≤ index → index < offset + count → left index = right index) :
    left.list offset count = right.list offset count := by
  induction count generalizing offset with
  | zero => rfl
  | succ count ih =>
      rw [list, list, agree offset (Nat.le_refl _) (by omega),
        ih fun index lower upper => agree index (by omega) (by omega)]

end Image

/-- A buffer in memory: `none` where nothing was stored since it came into
being. -/
abbrev Buffer := Nat → Option UInt8

namespace Buffer

def blank : Buffer := fun _ => none

/-- Stores the first `count` bytes of `source` at `offset`. -/
def store (buffer : Buffer) (offset count : Nat) (source : Image) : Buffer := fun index =>
  if offset ≤ index ∧ index < offset + count then some (source (index - offset))
  else buffer index

def le16? (buffer : Buffer) (offset : Nat) : Option Nat :=
  match buffer offset, buffer (offset + 1) with
  | some low, some high => some (256 * high.toNat + low.toNat)
  | _, _ => none

def le32? (buffer : Buffer) (offset : Nat) : Option Nat :=
  match buffer.le16? offset, buffer.le16? (offset + 2) with
  | some low, some high => some (65536 * high + low)
  | _, _ => none

/-- The bytes at `offset`, if all `count` of them were stored. -/
def list? (buffer : Buffer) (offset : Nat) : Nat → Option (List UInt8)
  | 0 => some []
  | count + 1 =>
      match buffer offset, buffer.list? (offset + 1) count with
      | some byte, some rest => some (byte :: rest)
      | _, _ => none

/-- A structure that was read in whole; what was not stored reads as zero. -/
def image (buffer : Buffer) : Image := fun index => (buffer index).getD 0

/-- The memory from an address on. -/
def tail (memory : Buffer) (address : Nat) : Buffer := fun index => memory (address + index)

/-- Memory with other contents from an address on. -/
def splice (memory : Buffer) (address : Nat) (contents : Buffer) : Buffer := fun index =>
  if index < address then memory index else contents (index - address)

theorem store_inside {buffer : Buffer} {offset count : Nat} {source : Image} {index : Nat}
    (lower : offset ≤ index) (upper : index < offset + count) :
    buffer.store offset count source index = some (source (index - offset)) :=
  if_pos ⟨lower, upper⟩

theorem store_outside {buffer : Buffer} {offset count : Nat} {source : Image} {index : Nat}
    (outside : index < offset ∨ offset + count ≤ index) :
    buffer.store offset count source index = buffer index :=
  if_neg (by omega)

@[simp] theorem store_nothing (buffer : Buffer) (offset : Nat) (source : Image) :
    buffer.store offset 0 source = buffer := by
  funext index
  exact store_outside (by omega)

theorem store_congr {buffer : Buffer} {offset count : Nat} {left right : Image}
    (agree : ∀ index, index < count → left index = right index) :
    buffer.store offset count left = buffer.store offset count right := by
  funext index
  unfold store
  split
  · rw [agree _ (by omega)]
  · rfl

/-- `buffer` holds the bytes of `image` from `offset` on, `count` of them. -/
def Holds (buffer : Buffer) (offset count : Nat) (image : Image) : Prop :=
  ∀ index, index < count → buffer (offset + index) = some (image index)

theorem store_holds (buffer : Buffer) (offset count : Nat) (source : Image) :
    (buffer.store offset count source).Holds offset count source := by
  intro index bound
  rw [store_inside (by omega) (by omega), Nat.add_sub_cancel_left]

theorem Holds.le16? {buffer : Buffer} {count : Nat} {image : Image}
    (holds : buffer.Holds 0 count image) {offset : Nat} (bound : offset + 2 ≤ count) :
    buffer.le16? offset = some (image.le16 offset) := by
  have low := holds offset (by omega)
  have high := holds (offset + 1) (by omega)
  rw [Nat.zero_add] at low high
  simp only [Buffer.le16?, low, high, Image.le16]

theorem Holds.le32? {buffer : Buffer} {count : Nat} {image : Image} {offset : Nat}
    (holds : buffer.Holds 0 count image) (bound : offset + 4 ≤ count) :
    buffer.le32? offset = some (image.le32 offset) := by
  have low : offset + 2 ≤ count := by omega
  have high : offset + 2 + 2 ≤ count := by omega
  simp only [Buffer.le32?, holds.le16? low, holds.le16? high, Image.le32]

/-- The bytes that `known` has are those of `whole`. -/
def Within (whole known : Buffer) : Prop := ∀ index, known index = none ∨ known index = whole index

theorem Within.refl (buffer : Buffer) : Within buffer buffer := fun _ => .inr rfl

section Within

variable {whole known : Buffer} (within : Within whole known)
include within

theorem Within.store (place count : Nat) (bytes : Image) :
    Within (whole.store place count bytes) (known.store place count bytes) := by
  intro index
  unfold Buffer.store
  split
  · exact .inr rfl
  · exact within index

theorem Within.byte {index : Nat} {byte : UInt8} (found : known index = some byte) : whole index = some byte := by
  rcases within index with unknown | same
  · rw [unknown] at found
    cases found
  · exact same.symm.trans found

theorem Within.le16? {offset value : Nat} (found : known.le16? offset = some value) :
    whole.le16? offset = some value := by
  unfold Buffer.le16? at found ⊢
  split at found
  next low high first second =>
    rw [within.byte first, within.byte second]
    exact found
  next => cases found

theorem Within.le32? {offset value : Nat} (found : known.le32? offset = some value) :
    whole.le32? offset = some value := by
  unfold Buffer.le32? at found ⊢
  split at found
  next low high first second =>
    rw [within.le16? first, within.le16? second]
    exact found
  next => cases found

end Within

end Buffer

end IQuik.Data
