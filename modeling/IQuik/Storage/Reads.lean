import IQuik.Program.Agreement
import IQuik.Storage.Partition

namespace IQuik.Storage

open IQuik.Data IQuik.Program

/-! # What a read of the open partition can do -/

/-- The contents of every disk are fixed. A read may still be short. -/
structure Machine.Fixed (machine : Machine) (image : Nat → Image) : Prop where
  bytes : ∀ call dev offset nbytes index,
    (machine.read call dev offset nbytes).bytes index = image dev (offset + index)

/-- Reads are complete and the heap is never exhausted. -/
structure Machine.Reliable (machine : Machine) : Prop where
  complete : ∀ call dev offset nbytes, (machine.read call dev offset nbytes).count = nbytes
  granted : ∀ call size, machine.grants call size = true

/-- The bytes of a partition. -/
def volume (image : Nat → Image) (part : Part) : Image := fun offset =>
  image part.dev (part.start + offset)

/-- The bytes of a partition from a place in one of its sectors on. -/
def sectorImage (image : Nat → Image) (part : Part) (sector byteOffset : Nat) : Image := fun index =>
  volume image part (sector * 512 + byteOffset + index)

variable {machine : Machine} {image : Nat → Image} {fs : Fs}

/-- What `disk_read` delivers on disks with fixed contents. -/
theorem diskRead_cases (fixed : machine.Fixed image) (fs : Fs) (dev nbytes offset : Nat) :
    ∃ calls answer, diskRead machine dev nbytes offset fs = .ok answer { fs with calls } ∧
      (nbytes = 0 → answer.count = 0) ∧ (machine.Reliable → answer.count = nbytes) ∧
      (nbytes ≠ 0 → answer.bytes = fun index => image dev (offset + index)) := by
  by_cases nothing : nbytes = 0
  · subst nothing
    exact ⟨fs.calls, { count := 0, bytes := fun _ => 0 }, if_pos rfl, fun _ => rfl, fun _ => rfl,
      fun some => absurd rfl some⟩
  · exact ⟨fs.calls + 1, _, if_neg nothing, fun none => absurd none nothing,
      fun reliable => reliable.complete _ _ _ _, fun _ => funext fun index => fixed.bytes _ _ _ _ index⟩

/-- Everything `part_read` does on disks with fixed contents: it refuses what
does not lie inside the partition, or stores all the bytes, or a part of them. -/
theorem partRead_cases (fixed : machine.Fixed image) (fs : Fs) (buffer : Buffer)
    (sector byteOffset byteLen place : Nat) :
    (fs.part.len ≤ sector * 512 + byteOffset + byteLen ∧
      partRead machine sector byteOffset byteLen place (fs, buffer) =
        .error .partBeyond (fs, buffer)) ∨
    (sector * 512 + byteOffset + byteLen < fs.part.len ∧ ∃ calls,
      partRead machine sector byteOffset byteLen place (fs, buffer) =
        .ok () ({ fs with calls },
          buffer.store place byteLen (sectorImage image fs.part sector byteOffset))) ∨
    (sector * 512 + byteOffset + byteLen < fs.part.len ∧ ¬machine.Reliable ∧ ∃ calls count,
      count < byteLen ∧ partRead machine sector byteOffset byteLen place (fs, buffer) =
        .error .devShortRead ({ fs with calls },
          buffer.store place count (sectorImage image fs.part sector byteOffset))) := by
  unfold partRead
  rw [Prog.view_bind]
  by_cases beyond : fs.part.len ≤ sector * 512 + byteOffset + byteLen
  · exact .inl ⟨beyond, by rw [if_pos beyond]; rfl⟩
  rw [if_neg beyond]
  have inside := Nat.lt_of_not_le beyond
  obtain ⟨calls, answer, delivered, nothing, complete, bytes⟩ := diskRead_cases fixed fs
    fs.part.dev byteLen (sector * 512 + fs.part.start + byteOffset)
  have stored : buffer.store place (answer.stored byteLen) answer.bytes =
      buffer.store place (answer.stored byteLen) (sectorImage image fs.part sector byteOffset) := by
    apply Buffer.store_congr
    intro index below
    have bound : answer.stored byteLen ≤ byteLen := Delivery.stored_le
    rw [bytes (by omega)]
    simp only [sectorImage, volume]
    congr 1
    omega
  have read : Prog.onFirst (diskRead machine (fs, buffer).1.part.dev byteLen
      (sector * 512 + (fs, buffer).1.part.start + byteOffset)) (fs, buffer) =
      .ok answer ({ fs with calls }, buffer) := Prog.onFirst_eq_ok.mpr ⟨delivered, rfl⟩
  rw [Prog.bind_run_ok read, Prog.update_bind, stored]
  by_cases whole : answer.count = byteLen
  · rw [if_pos whole, Delivery.stored_whole whole]
    exact .inr (.inl ⟨inside, calls, rfl⟩)
  · rw [if_neg whole]
    have some : byteLen ≠ 0 := fun none => whole ((nothing none).trans none.symm)
    exact .inr (.inr ⟨inside, fun reliable => whole (complete reliable), calls, answer.stored byteLen,
      Delivery.stored_short some whole, rfl⟩)

/-- A read that succeeds has stored all the bytes. -/
theorem partRead_eq_ok (fixed : machine.Fixed image) {buffer : Buffer}
    {sector byteOffset byteLen place : Nat} {after : Fs × Buffer}
    (returned : partRead machine sector byteOffset byteLen place (fs, buffer) = .ok () after) :
    sector * 512 + byteOffset + byteLen < fs.part.len ∧
      after.2 = buffer.store place byteLen (sectorImage image fs.part sector byteOffset) := by
  rcases partRead_cases fixed fs buffer sector byteOffset byteLen place with
    ⟨-, run⟩ | ⟨inside, calls, run⟩ | ⟨-, -, calls, count, -, run⟩
  · rw [run] at returned
    cases returned
  · rw [run] at returned
    cases returned
    exact ⟨inside, rfl⟩
  · rw [run] at returned
    cases returned

/-- Whatever a read does, it stores in one place, and no more than was asked. -/
theorem partRead_stores {sector byteOffset byteLen place : Nat} {state after : Fs × Buffer}
    (returned : (partRead machine sector byteOffset byteLen place state).state? = some after) :
    ∃ count bytes, count ≤ byteLen ∧ after.2 = state.2.store place count bytes := by
  unfold partRead at returned
  rw [Prog.view_bind] at returned
  split at returned
  · cases returned
    exact ⟨0, fun _ => 0, Nat.zero_le _, (Buffer.store_nothing _ _ _).symm⟩
  · obtain ⟨code, run⟩ | ⟨answer, middle, run, returned⟩ := Prog.bind_state?.mp returned
    · obtain ⟨run, -⟩ := Prog.onFirst_eq_error.mp run
      unfold diskRead at run
      split at run <;> cases run
    · obtain ⟨run, same⟩ := Prog.onFirst_eq_ok.mp run
      refine ⟨answer.stored byteLen, answer.bytes, Delivery.stored_le, ?_⟩
      rw [Prog.update_bind] at returned
      split at returned <;> cases returned <;> rw [← same]

end IQuik.Storage
