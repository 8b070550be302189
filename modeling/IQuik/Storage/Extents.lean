import IQuik.Program.Inspections
import IQuik.Storage.Handles

namespace IQuik.Storage

open IQuik.Data IQuik.Program

/-! # The extents of partitions

What `part_read` asks of the device and reads of a partition, and where
`read_dos_partition` finds one.
-/

section Reads

/-- A call of the firmware's `read`: its number, the handle, the byte offset and the
length. -/
structure DeviceRead where
  call : Nat
  dev : Nat
  offset : Nat
  nbytes : Nat

/-- What the firmware answers. -/
def Machine.answer (machine : Machine) (read : DeviceRead) : Delivery :=
  machine.read read.call read.dev read.offset read.nbytes

/-- Every byte that is asked for lies in the partition. -/
def Part.Covers (part : Part) (read : DeviceRead) : Prop :=
  read.dev = part.dev ∧ part.start ≤ read.offset ∧ read.offset + read.nbytes ≤ part.start + part.len

/-- A program that calls the firmware's `read`. -/
abbrev DeviceReads (α : Type) := Inspection DeviceRead Delivery α

/-- `disk_read` with the calls it makes. -/
def diskReads (dev nbytes offset : Nat) (fs : Fs) : DeviceReads (Delivery × Fs) :=
  if nbytes = 0 then pure ({ count := 0, bytes := fun _ => 0 }, fs)
  else .look { call := fs.calls, dev, offset, nbytes } fun answer => pure (answer, { fs with calls := fs.calls + 1 })

/-- `part_read` with the calls it makes. -/
def partReads (sector byteOffset byteLen place : Nat) (fs : Fs) (buffer : Buffer) :
    DeviceReads (Outcome QuikErr (Fs × Buffer) Unit) :=
  let off := sector * 512
  if fs.part.len ≤ off + byteOffset + byteLen then pure (.error .partBeyond (fs, buffer))
  else do
    let (answer, after) ← diskReads fs.part.dev byteLen (off + fs.part.start + byteOffset) fs
    let stored := buffer.store place (answer.stored byteLen) answer.bytes
    if answer.count = byteLen then pure (.ok () (after, stored)) else pure (.error .devShortRead (after, stored))

variable (machine : Machine) (fs : Fs) (sector byteOffset byteLen : Nat)

/-- What the device delivers of a place in the partition, when it is asked. -/
def delivery : Delivery :=
  machine.read fs.calls fs.part.dev (fs.part.start + sector * 512 + byteOffset) byteLen

/-- The device delivers all of it; it is not asked for nothing. -/
def Delivered : Prop := byteLen ≠ 0 → (delivery machine fs sector byteOffset byteLen).count = byteLen

/-- `part_read` calls `read` for bytes in the partition only, and succeeds on what
lies in it and is delivered, with the bytes there. -/
structure ReadsExactly (place : Nat) (buffer : Buffer) : Prop where
  inside : (partReads sector byteOffset byteLen place fs buffer).Stays fs.part.Covers machine.answer
  returns : (∃ after, partRead machine sector byteOffset byteLen place (fs, buffer) = .ok () after) ↔
    sector * 512 + byteOffset + byteLen ≤ fs.part.len ∧ Delivered machine fs sector byteOffset byteLen
  bytes : ∀ after, partRead machine sector byteOffset byteLen place (fs, buffer) = .ok () after →
    after.2 = buffer.store place byteLen (delivery machine fs sector byteOffset byteLen).bytes

variable {machine fs sector byteOffset byteLen} {place : Nat} {buffer : Buffer}

theorem diskReads_value (dev nbytes offset : Nat) :
    diskRead machine dev nbytes offset fs =
      .ok ((diskReads dev nbytes offset fs).value machine.answer).1
        ((diskReads dev nbytes offset fs).value machine.answer).2 := by
  unfold diskRead diskReads
  split
  · rfl
  · rfl

/-- The calls are those of `part_read`: with the machine's answers to them it is
the same function. -/
theorem partReads_value :
    (partReads sector byteOffset byteLen place fs buffer).value machine.answer =
      partRead machine sector byteOffset byteLen place (fs, buffer) := by
  rw [partReads, partRead, Prog.view_bind]
  dsimp only
  split
  · rfl
  · have read (offset : Nat) :
        Prog.onFirst (diskRead machine fs.part.dev byteLen offset) (fs, buffer) =
          .ok ((diskReads fs.part.dev byteLen offset fs).value machine.answer).1
            (((diskReads fs.part.dev byteLen offset fs).value machine.answer).2, buffer) :=
      Prog.onFirst_eq_ok.mpr ⟨diskReads_value fs.part.dev byteLen offset, rfl⟩
    rw [Inspection.value_bind, Prog.bind_run_ok (read _), Prog.update_bind]
    split
    · rfl
    · rfl

/-- `disk_read` asks for what it was asked for. -/
theorem diskReads_stays {inside : DeviceRead → Prop} {dev nbytes offset : Nat}
    (asked : inside { call := fs.calls, dev, offset, nbytes }) :
    (diskReads dev nbytes offset fs).Stays inside machine.answer := by
  unfold diskReads
  split
  · exact Inspection.stays_pure _
  · exact (Inspection.stays_look _ _).mpr ⟨asked, Inspection.stays_pure _⟩

/-- Every read that `part_read` asks for lies in the partition. -/
theorem partReads_covered :
    (partReads sector byteOffset byteLen place fs buffer).Stays fs.part.Covers machine.answer := by
  unfold partReads
  dsimp only
  split
  · exact Inspection.stays_pure _
  · rename_i within
    refine (Inspection.stays_bind _ _).mpr ⟨diskReads_stays ⟨rfl, ?_, ?_⟩, ?_⟩
    · dsimp only; omega
    · dsimp only; omega
    · split
      · exact Inspection.stays_pure _
      · exact Inspection.stays_pure _

theorem partRead_beyond (beyond : fs.part.len ≤ sector * 512 + byteOffset + byteLen) :
    partRead machine sector byteOffset byteLen place (fs, buffer) = .error .partBeyond (fs, buffer) := by
  rw [partRead, Prog.view_bind, if_pos beyond]
  rfl

/-- `part_read` in front of the end of the partition. -/
theorem partRead_inside (machine : Machine) (place : Nat) (buffer : Buffer)
    (inside : sector * 512 + byteOffset + byteLen < fs.part.len) :
    ∃ calls answer, (answer.count = byteLen ↔ Delivered machine fs sector byteOffset byteLen) ∧
      (byteLen ≠ 0 → answer = delivery machine fs sector byteOffset byteLen) ∧
      partRead machine sector byteOffset byteLen place (fs, buffer) =
        if answer.count = byteLen then
          .ok () ({ fs with calls }, buffer.store place (answer.stored byteLen) answer.bytes)
        else .error .devShortRead ({ fs with calls }, buffer.store place (answer.stored byteLen) answer.bytes) := by
  have position : sector * 512 + fs.part.start + byteOffset = fs.part.start + sector * 512 + byteOffset := by omega
  rw [partRead, Prog.view_bind, if_neg (Nat.not_le_of_lt inside)]
  by_cases nothing : byteLen = 0
  · subst nothing
    refine ⟨fs.calls, { count := 0, bytes := fun _ => 0 }, iff_of_true rfl fun some => absurd rfl some,
      fun some => absurd rfl some, ?_⟩
    rw [if_pos rfl]
    rfl
  · refine ⟨fs.calls + 1, _, ⟨fun whole _ => whole, fun whole => whole nothing⟩, fun _ => rfl, ?_⟩
    have read : Prog.onFirst (diskRead machine (fs, buffer).1.part.dev byteLen
        (sector * 512 + (fs, buffer).1.part.start + byteOffset)) (fs, buffer) =
        .ok (delivery machine fs sector byteOffset byteLen) ({ fs with calls := fs.calls + 1 }, buffer) := by
      refine Prog.onFirst_eq_ok.mpr ⟨?_, rfl⟩
      rw [diskRead, if_neg nothing, delivery, ← position]
    rw [Prog.bind_run_ok read, Prog.update_bind]
    split
    · rfl
    · rfl

/-- In front of the end of the partition `part_read` does what it should. -/
theorem readsExactly_inside (inside : sector * 512 + byteOffset + byteLen < fs.part.len) :
    ReadsExactly machine fs sector byteOffset byteLen place buffer := by
  obtain ⟨calls, answer, whole, same, run⟩ := partRead_inside machine place buffer inside
  refine ⟨partReads_covered, ?_, fun after returned => ?_⟩
  · rw [run]
    constructor
    · rintro ⟨after, returned⟩
      split at returned
      · exact ⟨Nat.le_of_lt inside, whole.mp ‹_›⟩
      · cases returned
    · rintro ⟨-, delivered⟩
      rw [if_pos (whole.mpr delivered)]
      exact ⟨_, rfl⟩
  · rw [run] at returned
    split at returned
    · cases returned
      rw [Delivery.stored_whole ‹_›]
      by_cases nothing : byteLen = 0
      · subst nothing
        exact (Buffer.store_nothing _ _ _).trans (Buffer.store_nothing _ _ _).symm
      · rw [same nothing]
    · cases returned

/-- `part_read` reads what it should, except where that ends with the partition. -/
theorem partRead_exactly_iff (machine : Machine) (fs : Fs) (sector byteOffset byteLen place : Nat) (buffer : Buffer) :
    ReadsExactly machine fs sector byteOffset byteLen place buffer ↔
      ¬(sector * 512 + byteOffset + byteLen = fs.part.len ∧ Delivered machine fs sector byteOffset byteLen) := by
  by_cases inside : sector * 512 + byteOffset + byteLen < fs.part.len
  · exact iff_of_true (readsExactly_inside inside) fun ends => absurd ends.1 (Nat.ne_of_lt inside)
  have beyond : fs.part.len ≤ sector * 512 + byteOffset + byteLen := Nat.le_of_not_lt inside
  constructor
  · rintro exactly ⟨same, delivered⟩
    obtain ⟨after, returned⟩ := exactly.returns.mpr ⟨Nat.le_of_eq same, delivered⟩
    rw [partRead_beyond beyond] at returned
    cases returned
  · intro never
    refine ⟨partReads_covered, ?_, fun after returned => ?_⟩
    · constructor
      · rintro ⟨after, returned⟩
        rw [partRead_beyond beyond] at returned
        cases returned
      · rintro ⟨within, delivered⟩
        exact absurd ⟨Nat.le_antisymm within beyond, delivered⟩ never
    · rw [partRead_beyond beyond] at returned
      cases returned

/-- The last sector of a partition of one sector is not read. -/
theorem partRead_last : ∃ fs buffer, fs.part.len = 512 ∧
    partRead twoPartitions 0 0 512 0 (fs, buffer) = .error .partBeyond (fs, buffer) ∧
    (delivery twoPartitions fs 0 0 512).count = 512 ∧ ¬ReadsExactly twoPartitions fs 0 0 512 0 buffer := by
  refine ⟨{ Fs.startUp with part := { Part.zero with len := 512 } }, .blank, rfl, partRead_beyond (Nat.le_refl 512),
    rfl, fun exactly => ?_⟩
  obtain ⟨after, returned⟩ := exactly.returns.mpr ⟨Nat.le_refl 512, fun _ => rfl⟩
  rw [partRead_beyond (Nat.le_refl 512)] at returned
  cases returned

end Reads

section Tables

variable {machine : Machine} {fs after : Fs} {dev : Nat}

theorem be16_lt (image : Image) (offset : Nat) : image.be16 offset < 65536 := by
  have high := (image offset).toNat_lt
  have low := (image (offset + 1)).toNat_lt
  unfold Image.be16
  omega

theorem macExtent_small (entry : Image) {secsize : Nat} (sector : secsize < 2 ^ 16) :
    (macExtent secsize entry).start < 2 ^ 48 ∧ (macExtent secsize entry).len < 2 ^ 48 := by
  have bound (offset : Nat) : entry.be32 offset * secsize < 2 ^ 32 * 2 ^ 16 :=
    Nat.mul_lt_mul'' (entry.be32_lt offset) sector
  exact ⟨bound 8, bound 12⟩

theorem readMacEntries_small {part secsize fuel i blocks : Nat} {extent : Extent} (sector : secsize < 2 ^ 16)
    (returned : readMacEntries machine dev part secsize fuel i blocks fs = .ok extent after) :
    extent.start < 2 ^ 48 ∧ extent.len < 2 ^ 48 := by
  induction fuel generalizing i blocks fs with
  | zero => cases returned
  | succ fuel ih =>
      rw [readMacEntries] at returned
      split at returned
      · obtain ⟨entry, middle, -, rest⟩ := Prog.bind_eq_ok.mp returned
        split at rest
        · cases rest
        · by_cases wanted : macEntryWanted part i entry = true
          · simp only [wanted, if_true] at rest
            cases rest
            exact macExtent_small entry sector
          · simp only [wanted] at rest
            exact ih rest
      · cases returned

theorem readDosPartition_small {part : Nat} {extent : Extent}
    (returned : readDosPartition machine dev part fs = .ok extent after) :
    extent.start < 2 ^ 48 ∧ extent.len < 2 ^ 48 := by
  obtain ⟨block, middle, -, rest⟩ := Prog.bind_eq_ok.mp returned
  split at rest
  · cases rest
  · split at rest
    · cases rest
    · cases rest
      have small (value : Nat) : value % 2 ^ 32 < 2 ^ 48 :=
        Nat.lt_of_lt_of_le (Nat.mod_lt value (by decide)) (by decide)
      exact ⟨small _, small _⟩

/-- Where a partition lies is known in 48 bits. -/
theorem readTable_small {fuel part : Nat} {extent : Extent}
    (returned : readTable machine fuel dev part fs = .ok extent after) :
    extent.start < 2 ^ 48 ∧ extent.len < 2 ^ 48 := by
  obtain ⟨result, middle, attempted, rest⟩ := Prog.bind_eq_ok.mp returned
  obtain ⟨found, rfl, mac⟩ | ⟨code, rfl, -⟩ := Prog.attempt_eq_ok.mp attempted
  · cases rest
    obtain ⟨block, _, -, entries⟩ := Prog.bind_eq_ok.mp mac
    split at entries
    · cases entries
    · exact readMacEntries_small (be16_lt block 2) entries
  · cases code with
    | partNotMac =>
        have dos : Prog.mapError (fun code => if code = .partNotDos then .partNotPartitioned else code)
            (readDosPartition machine dev part) middle = .ok extent after := rest
        unfold Prog.mapError at dos
        cases run : readDosPartition machine dev part middle with
        | ok found final =>
            rw [run] at dos
            cases dos
            exact readDosPartition_small run
        | error code final => rw [run] at dos; cases dos
        | fault => rw [run] at dos; cases dos
        | undefined => rw [run] at dos; cases dos
        | unfinished => rw [run] at dos; cases dos
    | _ => cases rest

/-- No sum in `part_read` wraps around, and the two halves of a position are that
position. -/
theorem seek_exact {fuel part sector byteOffset byteLen : Nat} {extent : Extent}
    (returned : readTable machine fuel dev part fs = .ok extent after) (sectors : sector < 2 ^ 32)
    (offsets : byteOffset < 2 ^ 32) (lengths : byteLen < 2 ^ 32) :
    sector * 512 + byteOffset + byteLen < 2 ^ 64 ∧
      let offset := sector * 512 + extent.start + byteOffset
      offset < 2 ^ 64 ∧ offset / 2 ^ 32 % 2 ^ 32 * 2 ^ 32 + offset % 2 ^ 32 = offset := by
  have start := (readTable_small returned).1
  refine ⟨by omega, by omega, ?_⟩
  omega

/-- An `int` as an unsigned number. -/
def unsigned (value : Int) : Nat := (value % 0x100000000).toNat

/-- What `read_dos_partition` makes of a sector. -/
def dosEntry (block : Image) (part : Nat) : Except QuikErr Extent :=
  if block 0x1fe ≠ 0x55 ∨ block 0x1ff ≠ 0xaa then .error .partNotDos
  else if 4 ≤ part then .error .partNotFound
  else
    let d := dosEntryOffset part
    .ok { start := block.le32 (d + 8) * 512 % 2 ^ 32, len := block.le32 (d + 12) * 512 % 2 ^ 32 }

theorem readDosPartition_run {block : Image} (read : readSector machine dev 0 fs = .ok block after) (part : Nat) :
    readDosPartition machine dev part fs =
      match dosEntry block part with
      | .ok extent => .ok extent after
      | .error code => .error code after := by
  rw [readDosPartition, Prog.bind_run_ok read, dosEntry]
  split
  · rfl
  · split
    · rfl
    · rfl

/-- The entries 1 to 4 of the table in the sector `block` are found, no other, and
nothing outside that sector is read. -/
structure FindsEntries (machine : Machine) (dev : Nat) (fs : Fs) (block : Image) (after : Fs) (partno : Int) :
    Prop where
  inside : ∀ other : Image, (∀ index, index < 512 → other index = block index) →
    dosEntry other (unsigned partno) = dosEntry block (unsigned partno)
  entry : ∀ n : Nat, 1 ≤ n → n ≤ 4 → partno = n →
    readDosPartition machine dev (unsigned partno) fs =
      .ok { start := 512 * block.le32 (0x1be + 16 * (n - 1) + 8),
            len := 512 * block.le32 (0x1be + 16 * (n - 1) + 12) } after
  none : partno < 1 ∨ 4 < partno →
    readDosPartition machine dev (unsigned partno) fs = .error .partNotFound after ∧ after.part = fs.part

/-- Every entry that the code comes to lies in the sector. -/
theorem dosEntryOffset_inside {part : Nat} (known : part < 4) : dosEntryOffset part + 16 ≤ 0x1fe := by
  unfold dosEntryOffset
  omega

theorem dosEntryOffset_eq {n : Nat} (first : 1 ≤ n) (last : n ≤ 3) : dosEntryOffset n = 0x1be + 16 * (n - 1) := by
  unfold dosEntryOffset
  omega

theorem dosEntry_inside {block other : Image} (same : ∀ index, index < 512 → other index = block index) (part : Nat) :
    dosEntry other part = dosEntry block part := by
  rw [dosEntry, dosEntry, same 0x1fe (by decide), same 0x1ff (by decide)]
  split
  · rfl
  · split
    · rfl
    · have place := dosEntryOffset_inside (Nat.lt_of_not_le ‹_›)
      have field (offset : Nat) (inside : offset + 4 ≤ 16) :
          other.le32 (dosEntryOffset part + offset) = block.le32 (dosEntryOffset part + offset) :=
        Image.le32_congr fun index _ upper => same index (by omega)
      dsimp only
      rw [field 8 (by decide), field 12 (by decide)]

variable {block : Image} {partno : Int}

theorem dosEntry_none (signed : block 0x1fe = 0x55 ∧ block 0x1ff = 0xaa) {part : Nat} (large : 4 ≤ part) :
    dosEntry block part = .error .partNotFound := by
  rw [dosEntry, if_neg (by simp [signed]), if_pos large]

theorem dosEntry_some (signed : block 0x1fe = 0x55 ∧ block 0x1ff = 0xaa) {part : Nat} (known : part < 4) :
    dosEntry block part = .ok
      { start := block.le32 (dosEntryOffset part + 8) * 512 % 2 ^ 32,
        len := block.le32 (dosEntryOffset part + 12) * 512 % 2 ^ 32 } := by
  rw [dosEntry, if_neg (by simp [signed]), if_neg (Nat.not_le_of_lt known)]

/-- `read_dos_partition` does not find entry 4, takes 0 for an entry, and counts
the bytes of the others in 32 bits. -/
theorem findsEntries_iff (read : readSector machine dev 0 fs = .ok block after)
    (signed : block 0x1fe = 0x55 ∧ block 0x1ff = 0xaa) (small : -0x80000000 ≤ partno ∧ partno < 0x80000000) :
    FindsEntries machine dev fs block after partno ↔ partno ≠ 0 ∧ partno ≠ 4 ∧
      ∀ n : Nat, 1 ≤ n → n ≤ 3 → partno = n →
        block.le32 (0x1be + 16 * (n - 1) + 8) < 2 ^ 23 ∧ block.le32 (0x1be + 16 * (n - 1) + 12) < 2 ^ 23 := by
  have run := readDosPartition_run read
  constructor
  · intro finds
    refine ⟨?_, ?_, ?_⟩
    · rintro rfl
      obtain ⟨failed, -⟩ := finds.none (.inl (by decide))
      rw [run, dosEntry_some signed (by decide)] at failed
      cases failed
    · rintro rfl
      have found := finds.entry 4 (by decide) (by decide) rfl
      rw [run, dosEntry_none signed (by decide)] at found
      cases found
    · rintro n first last rfl
      have same : unsigned (n : Int) = n := by unfold unsigned; omega
      have found := finds.entry n first (by omega) rfl
      rw [run, same, dosEntry_some signed (by omega), dosEntryOffset_eq first last] at found
      obtain ⟨start, len⟩ := Extent.mk.inj (Outcome.ok.inj found).1
      have startSmall := block.le32_lt (0x1be + 16 * (n - 1) + 8)
      have lenSmall := block.le32_lt (0x1be + 16 * (n - 1) + 12)
      exact ⟨by omega, by omega⟩
  · rintro ⟨some, four, fields⟩
    refine ⟨fun other same => dosEntry_inside same _, fun n first last same => ?_, fun outside => ⟨?_, ?_⟩⟩
    · subst same
      have same : unsigned (n : Int) = n := by unfold unsigned; omega
      have last : n ≤ 3 := by omega
      obtain ⟨start, len⟩ := fields n first last rfl
      rw [run, same, dosEntry_some signed (by omega), dosEntryOffset_eq first last,
        Nat.mod_eq_of_lt (by omega), Nat.mod_eq_of_lt (by omega), Nat.mul_comm, Nat.mul_comm (block.le32 _)]
    · have large : 4 ≤ unsigned partno := by unfold unsigned; omega
      rw [run, dosEntry_none signed large]
    · have kept := readSector_keeps dev 0 fs after (by rw [read]; rfl)
      exact (Prod.mk.inj kept).1

/-- A DOS partition table of four entries of one sector each. -/
def fourTable : Image := .ofRuns [(0x1be + 8, [1, 0, 0, 0, 1]), (0x1ce + 8, [2, 0, 0, 0, 1]),
  (0x1de + 8, [3, 0, 0, 0, 1]), (0x1ee + 8, [4, 0, 0, 0, 1]), (0x1fe, [0x55, 0xaa])]

def fourEntries : Machine where
  openDevice _ _ := some 1
  read _ _ offset nbytes := { count := nbytes, bytes := fun index => fourTable (offset + index) }
  grants _ _ := true
  nwFullDisk := false

/-- The state when a sector has been read. -/
def oneCall : Fs := { Fs.startUp with calls := 1 }

theorem fourEntries_sector :
    readSector fourEntries 1 0 .startUp = .ok (fun index => fourTable (0 + index)) oneCall := rfl

theorem findsEntries_sample : FindsEntries fourEntries 1 .startUp (fun index => fourTable (0 + index)) oneCall 3 := by
  refine (findsEntries_iff fourEntries_sector ⟨by decide, by decide⟩ ⟨by decide, by decide⟩).mpr
    ⟨by decide, by decide, fun n _ _ same => ?_⟩
  obtain rfl : n = 3 := by omega
  exact ⟨by decide +kernel, by decide +kernel⟩

/-- The last partition is not found. -/
theorem dosEntry_four :
    readDosPartition fourEntries 1 (unsigned 4) .startUp = .error .partNotFound oneCall ∧
      ¬FindsEntries fourEntries 1 .startUp (fun index => fourTable (0 + index)) oneCall 4 := by
  have failed : readDosPartition fourEntries 1 (unsigned 4) .startUp = .error .partNotFound oneCall := by
    rw [readDosPartition_run fourEntries_sector, dosEntry_none ⟨by decide, by decide⟩ (by decide)]
  refine ⟨failed, fun finds => ?_⟩
  have found := finds.entry 4 (by decide) (by decide) rfl
  rw [failed] at found
  cases found

end Tables

end IQuik.Storage
