import IQuik.Loader.Relocation
import IQuik.PowerPC.Cache
import IQuik.PowerPC.Copies

namespace IQuik.Loader

open IQuik.Data IQuik.PowerPC

/-! # What `elf_relo` leaves to the assembly -/

/-- The image is what the memory of the processor holds. -/
def Shows (image : Image) (mem : PowerPC.Memory) : Prop :=
  ∀ address < 2 ^ 32, image address = mem (UInt32.ofNat address)

section Moving

variable {around : Surroundings} {memory : Image} {image : LoadState} {claims after : Claims} {core : Core}
  {dest src count : Nat} {result : LoadState × Image}

/-- The `memmove` of `string.S` does what `elf_relo` takes it to do. -/
theorem memmove_refines (shows' : Shows memory core.mem) (target : dest + count ≤ 2 ^ 32)
    (source : src + count ≤ 2 ^ 32) (small : dest < 2 ^ 32 ∧ src < 2 ^ 32 ∧ count < 2 ^ 32) :
    ∃ final,
      copies.Returns .memmove (callCopy (UInt32.ofNat dest) (UInt32.ofNat src) (UInt32.ofNat count) core) final ∧
        Shows (memmove memory dest src count) final.mem := by
  have dest' := UInt32.toNat_ofNat_of_lt' small.1
  have src' := UInt32.toNat_ofNat_of_lt' small.2.1
  have count' := UInt32.toNat_ofNat_of_lt' small.2.2
  have ranges : Ranges (UInt32.ofNat dest) (UInt32.ofNat src) (UInt32.ofNat count).toNat :=
    ⟨by rwa [dest', count'], by rwa [src', count']⟩
  obtain ⟨final, returns, moved⟩ := memmove_run core ranges
  refine ⟨final, returns, fun address inside => ?_⟩
  rw [moved, count', memmove]
  split
  · next within =>
      have place' : UInt32.ofNat address = place (UInt32.ofNat dest) (address - dest) := by
        rw [place, ← UInt32.ofNat_add, Nat.add_sub_cancel' within.1]
      have byte : wrap (src + (address - dest)) = src + (address - dest) := Nat.mod_eq_of_lt (by omega)
      rw [place', moved_inside (by omega) (Nat.zero_le _) (by omega), place, ← UInt32.ofNat_add, byte]
      exact shows' _ (by omega)
  · next without =>
      rw [moved_outside]
      · exact shows' address inside
      · intro k _ below same
        have offset := congrArg UInt32.toNat same
        rw [place, ← UInt32.ofNat_add, UInt32.toNat_ofNat_of_lt' inside,
          UInt32.toNat_ofNat_of_lt' (show dest + k < 2 ^ 32 by omega)] at offset
        omega

/-- A kernel that is moved is moved by the assembly, unless its code wraps around
in the buffer. -/
theorem elfRelo_old_moves (shows' : Shows memory core.mem) (masked : image.linkedBase < 0x10000000)
    (source : wrap (image.buf + image.textOffset) + image.textLen ≤ 2 ^ 32)
    (enough : (image.textLen + 4095) / 4096 < around.fuel)
    (relocated : elfRelo around true memory image claims = .ok result after) :
    ∃ final, copies.Returns .memmove (callCopy (UInt32.ofNat result.1.linkedBase)
        (UInt32.ofNat (wrap (image.buf + image.textOffset))) (UInt32.ofNat result.1.textLen) core) final ∧
      Shows result.2 final.mem := by
  by_cases big : iquikBase < image.textLen
  · rw [elfRelo_big big] at relocated
    cases relocated
  · have small : image.textLen ≤ iquikBase := Nat.le_of_not_lt big
    have known : iquikBase = 0x3E0000 := rfl
    obtain ⟨other, moved⟩ := elfRelo_old around memory claims small masked enough
    rw [moved] at relocated
    cases relocated
    have wrapped : wrap (image.buf + image.textOffset) < 2 ^ 32 := Nat.mod_lt _ (by decide)
    have target : image.linkedBase + image.textLen ≤ 2 ^ 32 := by omega
    exact memmove_refines shows' target source ⟨show image.linkedBase < 2 ^ 32 by omega, wrapped,
      show image.textLen < 2 ^ 32 by omega⟩

/-- The cache lines of a kernel that stays where it was loaded are all flushed
exactly when the place of its code in memory allows it. -/
theorem elfRelo_new_flushes (relocated : elfRelo around false memory image claims = .ok result after)
    (fits : result.1.linkedBase + result.1.textLen < 2 ^ 32 - 32) :
    core.FlushesRange (UInt32.ofNat result.1.linkedBase) (UInt32.ofNat result.1.textLen) ↔
      image.textLen = 0 ∨ (image.buf + image.textOffset) % 32 + (image.textLen - 1) % 32 < 32 := by
  rw [elfRelo_new] at relocated
  cases relocated
  simp only at fits ⊢
  have base := UInt32.toNat_ofNat_of_lt' (show wrap (image.buf + image.textOffset) < 2 ^ 32 by omega)
  have len := UInt32.toNat_ofNat_of_lt' (show image.textLen < 2 ^ 32 by omega)
  have lower : wrap (image.buf + image.textOffset) % 32 = (image.buf + image.textOffset) % 32 := by
    rw [wrap]
    omega
  rw [flushesRange_lines core (by omega), covered_iff (by omega), base, len, lower,
    ofNat_eq_zero (show image.textLen < 2 ^ 32 by omega)]

end Moving

end IQuik.Loader
