import IQuik.Installer.ElfExtract
import IQuik.Installer.Reinstall
import IQuik.PowerPC.Startup

namespace IQuik.Installer

open IQuik.Data IQuik.Program

/-! # From the installer to the running loader -/

/-- What is installed: boot code that consists of `body` and the signature, with the script in place of
the signature if there is one. -/
def stageOf (body : List UInt8) (script : Option File) : List UInt8 :=
  match script with
  | some script => body ++ script.bytes ++ [0]
  | none => body ++ prebootMagic

section Stored

variable {host : Host} {device staged after : Device} {code : File} {script : Option File} {body : List UInt8}
  {doff size : Nat}

/-- A call that succeeds stores the whole stage. -/
theorem installStage_stored (obliging : host.Obliging) (ends : code.bytes = body ++ prebootMagic)
    (run : installStage host (some code) (script.map some) doff device = .ok size staged) :
    ∃ contents, size = (stageOf body script).length ∧
      staged = device.store (doff * 512) (stageOf body script).length contents ∧
      ∀ i, i < (stageOf body script).length → contents i = (stageOf body script).getD i 0 := by
  cases script with
  | none =>
      have plain : stageOf body none = code.bytes := ends.symm
      have read := readStage_plain device code
      rw [Option.map_none, installStage_plain obliging] at run
      rw [plain]
      by_cases positive : Positive code.bytes.length
      · rw [if_neg (not_not.mpr positive)] at read
        obtain ⟨rfl, moves⟩ := writeStage_moves obliging run
        rw [writeStage_ok obliging rfl read moves] at run
        cases run
        exact ⟨_, rfl, rfl, fun i => codeBuffer_image⟩
      · rw [if_pos positive] at read
        rw [writeStage_error obliging rfl read] at run
        cases run
  | some preboot =>
      have read := readStage_script device preboot ends
      have length : (body ++ preboot.bytes ++ [0]).length = body.length + preboot.bytes.length + 1 := by
        rw [List.length_append, List.length_append, List.length_singleton]
      rw [Option.map_some, installStage_script obliging] at run
      by_cases positive : Positive body.length
      · by_cases positive' : Positive preboot.bytes.length
        · rw [if_neg (not_not.mpr positive), if_neg (not_not.mpr positive')] at read
          obtain ⟨same, moves⟩ := writeStage_moves obliging run
          rw [stageSizes_script ends] at same
          subst same
          rw [writeStage_ok obliging (stageSizes_script ends) read moves] at run
          cases run
          exact ⟨_, length.symm, by rw [stageOf, length], fun i => stageBuffer_image⟩
        · rw [if_neg (not_not.mpr positive), if_pos positive'] at read
          rw [writeStage_error obliging (stageSizes_script ends) read] at run
          cases run
      · rw [if_pos positive] at read
        rw [writeStage_error obliging (stageSizes_script ends) read] at run
        cases run

/-- A run of the installer: the stage goes to the partition, and then the entry is marked. -/
theorem install_eq_ok {fuel : Nat} {found : BootEntry} (obliging : host.Obliging)
    (ends : code.bytes = body ++ prebootMagic) (selected : readSb host fuel device = .ok found device)
    (returned : install host fuel (some code) (script.map some) device = .ok () after) :
    ∃ contents, after =
        (device.store (found.doff * 512) (stageOf body script).length contents).booted
          (found.partIndex * found.secsize) (stageOf body script).length 0x3e0000 ∧
      ∀ i, i < (stageOf body script).length → contents i = (stageOf body script).getD i 0 := by
  obtain ⟨size, contents, rfl, -, -, -, stage, -⟩ := install_stores obliging selected returned
  obtain ⟨whole, rfl, same, bytes⟩ := installStage_stored obliging ends stage
  rw [same]
  exact ⟨whole, rfl, bytes⟩

end Stored

/-! ## What the firmware loads -/

/-- How the firmware loads the bootstrap of map entry `k`: the memory that it finds, and that it leaves. -/
abbrev FirmwareLoad := (device : Device) → (secsize k : Nat) → PowerPC.Memory → PowerPC.Memory

/-- The firmware takes the boot fields of an entry for what `mac-part.h` says they are: `boot_size` bytes from the
block `boot_start` of the partition go to `boot_load`. -/
def FirmwareLoad.Follows (load : FirmwareLoad) : Prop :=
  ∀ (device : Device) (secsize k : Nat) (mem : PowerPC.Memory) (i : Nat),
    let entry := device.block (k * secsize)
    i < entry.be32 96 → entry.be32 100 + i < 2 ^ 32 →
      load device secsize k mem (PowerPC.place (UInt32.ofNat (entry.be32 100)) i) =
        device.bytes ((entry.be32 8 + entry.be32 92) * secsize + i)

section Loaded

variable {load : FirmwareLoad} {mp : Image} {stageSize loadBase : Nat}

theorem bootable_be32 {offset value : Nat} (member : (offset, be32Bytes value) ∈ bootFields mp stageSize loadBase)
    (small : value < 2 ^ 32) : (bootable mp stageSize loadBase).be32 offset = value :=
  be32_be32Bytes small fun _ inside => puts_field bootFields_apart member inside

theorem bootable_start : (bootable mp stageSize loadBase).be32 8 = mp.be32 8 := by
  have same (i : Nat) (small : i < 88) : bootable mp stageSize loadBase i = mp i := bootable_outside (.inl small)
  simp only [Image.be32, Image.be16, same 8 (by decide), same (8 + 1) (by decide), same (8 + 2) (by decide),
    same (8 + 2 + 1) (by decide)]

/-- An entry that was marked says that its stage is to be loaded from the start of the partition, and entered. -/
theorem bootable_fields (mp : Image) (small : stageSize < 2 ^ 32) (small' : loadBase < 2 ^ 32) :
    (bootable mp stageSize loadBase).be32 92 = 0 ∧ (bootable mp stageSize loadBase).be32 96 = stageSize ∧
      (bootable mp stageSize loadBase).be32 100 = loadBase ∧ (bootable mp stageSize loadBase).be32 108 = loadBase := by
  refine ⟨bootable_be32 ?_ (by decide), bootable_be32 ?_ small, bootable_be32 ?_ small', bootable_be32 ?_ small'⟩
  all_goals simp [bootFields]

variable {host : Host} {device after : Device} {code : File} {script : Option File} {body : List UInt8} {fuel : Nat}
  {found : BootEntry}

/-- A stage that does not overlap its map entry. -/
def Apart (found : BootEntry) (stageSize : Nat) : Prop :=
  found.doff * 512 + stageSize ≤ found.partIndex * found.secsize ∨
    found.partIndex * found.secsize + 512 ≤ found.doff * 512

/-- The firmware loads what was installed. -/
theorem firmwareLoad_stage (follows : load.Follows) (obliging : host.Obliging) (ends : code.bytes = body ++ prebootMagic)
    (selected : readSb host fuel device = .ok found device)
    (returned : install host fuel (some code) (script.map some) device = .ok () after)
    (sectors : 512 ∣ found.secsize) (apart : Apart found (stageOf body script).length)
    (fits : 0x3e0000 + (stageOf body script).length < 2 ^ 32) (mem : PowerPC.Memory) :
    (∀ i, i < (stageOf body script).length → load after found.secsize found.partIndex mem
      (PowerPC.place 0x3e0000 i) = (stageOf body script).getD i 0) ∧
    (after.block (found.partIndex * found.secsize)).be32 108 = 0x3e0000 := by
  obtain ⟨contents, rfl, bytes⟩ := install_eq_ok obliging ends selected returned
  obtain ⟨-, -, -, entry⟩ := readSb_eq_ok selected
  have doff := entry.doff
  rw [← entry.size] at doff
  let staged := device.store (found.doff * 512) (stageOf body script).length contents
  let mp := staged.block (found.partIndex * found.secsize)
  have unstaged (i : Nat) (inside : i < 512) : mp i = device.block (found.partIndex * found.secsize) i := by
    refine store_outside ?_
    unfold Apart at apart
    omega
  have start : mp.be32 8 = (device.block (found.partIndex * found.secsize)).be32 8 := by
    simp only [Image.be32, Image.be16, unstaged 8 (by decide), unstaged (8 + 1) (by decide),
      unstaged (8 + 2) (by decide), unstaged (8 + 2 + 1) (by decide)]
  have place' : (device.block (found.partIndex * found.secsize)).be32 8 * found.secsize = found.doff * 512 := by
    rw [doff, Nat.mul_assoc, Nat.div_mul_cancel sectors]
  obtain ⟨bootStart, bootSize, bootLoad, bootEntry⟩ :=
    bootable_fields mp (show (stageOf body script).length < 2 ^ 32 by omega) (show 0x3e0000 < 2 ^ 32 by decide)
  refine ⟨fun i inside => ?_, ?_⟩
  · have loaded := follows (staged.booted (found.partIndex * found.secsize) (stageOf body script).length 0x3e0000)
      found.secsize found.partIndex mem i
    rw [booted_block] at loaded
    dsimp only at loaded
    rw [bootStart, bootSize, bootLoad, bootable_start, start, Nat.add_zero, place'] at loaded
    refine (loaded inside (by omega)).trans ?_
    rw [booted_outside (by unfold Apart at apart; omega), ← bytes i inside]
    exact store_inside inside
  · rw [booted_block]
    exact bootEntry

end Loaded

/-! ## What runs -/

section Running

open PowerPC

/-- The boot code of an ELF file: what elfextract makes of it, with the layout of `ld.script`. The signature
is behind BSS and the stack. -/
structure BootCode (elf code : File) (body : List UInt8) (symbols : Symbols) : Prop where
  linked : ∃ first rest, segments elf = first :: rest ∧ Linked first rest ∧ first.vaddr = 0x3e0000
  extracted : ∃ fuel creates accepts after,
    elfextract fuel (some elf) creates accepts .start = .ok () after ∧ after.written = code.bytes
  signed : code.bytes = body ++ prebootMagic
  words : symbols.Linked
  base : symbols.start = 0x3e0000
  bss : 0x3e0000 ≤ symbols.bssStart.toNat ∧ symbols.bssEnd.toNat ≤ 0x3e0000 + body.length

/-- What is in memory when `iquik_main` is entered. -/
structure Loaded (elf : File) (body script : List UInt8) (symbols : Symbols) (mem : Memory) : Prop where
  segments : ∀ segment ∈ segments elf, ∀ j < segment.filesz, segment.vaddr + j < 0x3e0000 + body.length →
    segment.vaddr + j < symbols.bssStart.toNat ∨ symbols.bssEnd.toNat ≤ segment.vaddr + j →
    elf.bytes[segment.offset + j]? = some (mem (UInt32.ofNat (segment.vaddr + j)))
  bss : ∀ address, symbols.bssStart ≤ address → address < symbols.bssEnd → mem address = 0
  script : mem.Spells (place 0x3e0000 body.length) script

variable {elf code : File} {body : List UInt8} {symbols : Symbols} {script : Option File} {mem : Memory}

/-- The bytes of a segment in the boot code. -/
theorem BootCode.segment_byte (built : BootCode elf code body symbols) {segment : Segment}
    (member : segment ∈ segments elf) {j : Nat} (inside : j < segment.filesz) :
    0x3e0000 ≤ segment.vaddr ∧ code.bytes[segment.vaddr - 0x3e0000 + j]? = elf.bytes[segment.offset + j]? ∧
      segment.vaddr - 0x3e0000 + j < code.bytes.length := by
  obtain ⟨first, rest, known, linked, base⟩ := built.linked
  obtain ⟨fuel, creates, accepts, after, run, written⟩ := built.extracted
  rw [known] at member
  obtain ⟨reaches, bytes⟩ := (segments_extracted known linked run).2 segment member
  rw [written, base] at reaches
  have byte := bytes j inside
  rw [written, base] at byte
  exact ⟨base ▸ (linked.congruent segment member).1, byte, by omega⟩

theorem stageOf_body {i : Nat} (inside : i < body.length) :
    i < (stageOf body script).length ∧ (stageOf body script).getD i 0 = body.getD i 0 := by
  cases script with
  | none =>
      rw [stageOf, List.length_append, List.getD_append _ _ _ _ inside]
      exact ⟨by omega, rfl⟩
  | some preboot =>
      rw [stageOf, List.append_assoc, List.length_append, List.getD_append _ _ _ _ inside]
      exact ⟨by omega, rfl⟩

/-- Behind the body there is the script with a NUL, or the NUL that the signature begins with. -/
theorem stageOf_script {i : Nat} (inside : i < (script.elim [] File.bytes ++ [0]).length) :
    body.length + i < (stageOf body script).length ∧
      (stageOf body script).getD (body.length + i) 0 = (script.elim [] File.bytes ++ [0]).getD i 0 := by
  cases script with
  | none =>
      obtain rfl : i = 0 := by simpa using inside
      rw [stageOf, List.length_append, List.getD_append_right _ _ _ _ (Nat.le_add_right _ _), Nat.add_sub_cancel_left]
      exact ⟨Nat.add_lt_add_left (by decide) _, rfl⟩
  | some preboot =>
      rw [stageOf, List.append_assoc, List.length_append, List.getD_append_right _ _ _ _ (Nat.le_add_right _ _),
        Nat.add_sub_cancel_left]
      exact ⟨Nat.add_lt_add_left inside _, rfl⟩

/-- What was loaded is still there behind the start-up code, but for BSS. -/
theorem loaded_of_started (built : BootCode elf code body symbols)
    (noNul : ∀ preboot ∈ script, 0 ∉ preboot.bytes) (fits : 0x3e0000 + (stageOf body script).length < 2 ^ 32)
    {before after : Fields} (started : Started symbols before after)
    (stage : ∀ i, i < (stageOf body script).length → before.mem (place 0x3e0000 i) = (stageOf body script).getD i 0) :
    Loaded elf body (script.elim [] File.bytes) symbols after.mem := by
  have bss := built.bss
  have kept {i : Nat} (inside : i < (stageOf body script).length)
      (outside : 0x3e0000 + i < symbols.bssStart.toNat ∨ symbols.bssEnd.toNat ≤ 0x3e0000 + i) :
      after.mem (place 0x3e0000 i) = (stageOf body script).getD i 0 := by
    have here : (place 0x3e0000 i).toNat = 0x3e0000 + i := place_toNat (show 0x3e0000 + i < 2 ^ 32 by omega)
    rw [← stage i inside]
    refine started.rest _ ?_
    rw [UInt32.lt_iff_toNat_lt, UInt32.le_iff_toNat_le, here]
    exact outside
  have behind {i : Nat} (inside : i < (script.elim [] File.bytes ++ [0]).length) :
      after.mem (place (place 0x3e0000 body.length) i) = (script.elim [] File.bytes ++ [0]).getD i 0 := by
    obtain ⟨reaches, byte⟩ := stageOf_script inside
    rw [place_place, kept reaches (by omega), byte]
  refine ⟨fun segment member j inside below outside => ?_, started.bss, spells_of_get (fun i inside => ?_) ?_ ?_⟩
  · obtain ⟨low, same, inCode⟩ := built.segment_byte member inside
    have inBody : segment.vaddr - 0x3e0000 + j < body.length := by omega
    obtain ⟨reaches, byte⟩ : _ ∧ (stageOf body script).getD _ 0 = _ := stageOf_body inBody
    have here : UInt32.ofNat (segment.vaddr + j) = place 0x3e0000 (segment.vaddr - 0x3e0000 + j) := by
      rw [place, show (0x3e0000 : Word) = UInt32.ofNat 0x3e0000 from rfl, ← UInt32.ofNat_add]
      congr 1
      omega
    rw [here, kept reaches (by omega), byte, ← same, built.signed, List.getElem?_append_left inBody,
      List.getD_eq_getElem?_getD, List.getElem?_eq_getElem inBody, Option.getD_some]
  · rw [behind (by rw [List.length_append]; omega), List.getD_append _ _ _ _ inside,
      List.getD_eq_getElem?_getD, List.getElem?_eq_getElem inside, Option.getD_some]
  · cases script with
    | none => exact List.not_mem_nil
    | some preboot => exact noNul preboot rfl
  · rw [behind (by rw [List.length_append, List.length_singleton]; omega),
      List.getD_append_right _ _ _ _ (Nat.le_refl _), Nat.sub_self]
    rfl

/-- The loader that an ELF file was built into, once installed, is started by the firmware as it was
linked: its segments are in memory, BSS is clear, and the script of the installer is the string at
`_preboot_script`. -/
theorem loader_starts {load : FirmwareLoad} {host : Host} {device installed : Device} {fuel : Nat} {found : BootEntry}
    (follows : load.Follows) (built : BootCode elf code body symbols) (noNul : ∀ preboot ∈ script, 0 ∉ preboot.bytes)
    (obliging : host.Obliging) (selected : readSb host fuel device = .ok found device)
    (returned : install host fuel (some code) (script.map some) device = .ok () installed)
    (sectors : 512 ∣ found.secsize) (apart : Apart found (stageOf body script).length)
    (fits : 0x3e0000 + (stageOf body script).length < 2 ^ 32) (before : Fields) :
    (installed.block (found.partIndex * found.secsize)).be32 108 = symbols.start.toNat ∧
    ∃ after, (crt0 symbols).Returns StartOp.exec .start
        { before with mem := load installed found.secsize found.partIndex before.mem } after ∧
      Loaded elf body (script.elim [] File.bytes) symbols after.mem ∧ after.reg 1 = symbols.stackTop - 16 := by
  obtain ⟨bytes, entry⟩ := firmwareLoad_stage follows obliging built.signed selected returned sectors apart fits before.mem
  obtain ⟨after, words, returns, total, done⟩ := crt0_run built.words
    { before with mem := load installed found.secsize found.partIndex before.mem }
  have started := done.started built.words total
  refine ⟨?_, after, returns, loaded_of_started built noNul fits started bytes, started.stack⟩
  rw [entry, built.base]
  rfl

/-- The boot code in the sample, and where its BSS is. -/
def sampleBootCode : File := { bytes := sampleBody ++ prebootMagic, small := by decide }

def sampleLayout : Symbols where
  start := 0x3e0000
  finish := 0x3e0010
  bssStart := 0x3e0008
  bssEnd := 0x3e000c
  stackTop := 0x3e000c

theorem sampleElf_built : BootCode sampleElf sampleBootCode sampleBody sampleLayout where
  linked := ⟨_, _, sampleElf_segments, sampleSegment_linked, rfl⟩
  extracted := by
    have run : (elfextract 3 (some sampleElf) true (fun _ _ => true) .start).success?.map Streams.written =
        some sampleBootCode.bytes := by decide +kernel
    obtain ⟨after, success, written⟩ := Option.map_eq_some_iff.mp run
    obtain ⟨_, returned⟩ := Outcome.success?_eq_some.mp success
    exact ⟨3, true, fun _ _ => true, after, returned, written⟩
  signed := rfl
  words := ⟨by decide, by decide, by decide, by decide, by decide⟩
  base := rfl
  bss := by decide

/-- A firmware that copies what the fields say and touches nothing else. -/
def copyingLoad : FirmwareLoad := fun device secsize k mem address =>
  let entry := device.block (k * secsize)
  if entry.be32 100 ≤ address.toNat ∧ address.toNat < entry.be32 100 + entry.be32 96 then
    device.bytes ((entry.be32 8 + entry.be32 92) * secsize + (address.toNat - entry.be32 100))
  else mem address

theorem copyingLoad_follows : copyingLoad.Follows := by
  intro device secsize k mem i
  dsimp only
  intro inside fits
  have base : (UInt32.ofNat ((device.block (k * secsize)).be32 100)).toNat = (device.block (k * secsize)).be32 100 :=
    UInt32.toNat_ofNat_of_lt' (Nat.lt_of_le_of_lt (Nat.le_add_right _ _) fits)
  have here : (PowerPC.place (UInt32.ofNat ((device.block (k * secsize)).be32 100)) i).toNat =
      (device.block (k * secsize)).be32 100 + i := by
    rw [PowerPC.place_toNat (by rw [base]; exact fits), base]
  unfold copyingLoad
  dsimp only
  rw [here, if_pos ⟨Nat.le_add_right _ _, Nat.add_lt_add_left inside _⟩, Nat.add_sub_cancel_left]

theorem loader_starts_sample : ∃ installed,
    install obligingHost 3 (some sampleBootCode) (some (some sampleScript)) sampleDevice = .ok () installed ∧
    ∃ after, (crt0 sampleLayout).Returns StartOp.exec .start
        { Fields.idle with mem := copyingLoad installed 512 2 Fields.idle.mem } after ∧
      Loaded sampleElf sampleBody (str "boot") sampleLayout after.mem ∧ after.reg 1 = sampleLayout.stackTop - 16 := by
  have run : (install obligingHost 3 (some sampleBootCode) (some (some sampleScript)) sampleDevice).success?.isSome =
      true := by decide +kernel
  obtain ⟨installed, success⟩ := Option.isSome_iff_exists.mp run
  obtain ⟨_, returned⟩ := Outcome.success?_eq_some.mp success
  have scripted : install obligingHost 3 (some sampleBootCode) ((some sampleScript).map some) sampleDevice =
      .ok () installed := returned
  have noNul : ∀ preboot ∈ some sampleScript, 0 ∉ preboot.bytes := by
    rintro preboot ⟨⟩
    decide
  exact ⟨installed, returned, (loader_starts copyingLoad_follows sampleElf_built noNul obligingHost_obliging sampleDevice_selected scripted
    (Nat.dvd_refl _) (.inr (by decide)) (by decide) .idle).2⟩

end Running

end IQuik.Installer
