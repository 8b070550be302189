import IQuik.Installer.Inside

namespace IQuik.Installer

open IQuik.Data IQuik.Program

/-! # Installing a second time -/

variable {host : Host} {device other staged after : Device} {code : File} {script : Option File} {found : BootEntry}
  {doff size secsize : Nat}

section Devices

theorem Device.ext' {left right : Device} (size : left.size = right.size) (bytes : ∀ index, left.bytes index = right.bytes index) :
    left = right := by
  obtain ⟨_, _⟩ := left
  obtain ⟨_, _⟩ := right
  obtain rfl : _ = _ := size
  exact congrArg (Device.mk _) (funext bytes)

variable {offset count : Nat} {contents : Image}

theorem store_size (offset count : Nat) (contents : Image) : device.size ≤ (device.store offset count contents).size := by
  unfold Device.store
  split
  · exact Nat.le_refl _
  · exact Nat.le_max_left _ _

theorem store_inside {i : Nat} (inside : i < count) :
    (device.store offset count contents).bytes (offset + i) = contents i := by
  have here : offset ≤ offset + i ∧ offset + i < offset + count := by omega
  simp only [Device.store, if_pos here, Nat.add_sub_cancel_left]

/-- Storing what is there changes nothing. -/
theorem store_same (room : offset + count ≤ device.size) (same : ∀ i < count, device.bytes (offset + i) = contents i) :
    device.store offset count contents = device := by
  refine Device.ext' ?_ fun index => ?_
  · unfold Device.store
    dsimp only
    split
    · rfl
    · exact Nat.max_eq_left room
  · by_cases inside : offset ≤ index ∧ index < offset + count
    · obtain ⟨i, rfl⟩ := Nat.exists_eq_add_of_le inside.1
      rw [store_inside (by omega), same i (by omega)]
    · exact store_outside (by omega)

end Devices

section Stage

/-- What the files make does not depend on the device. -/
theorem readStage_other {codeSize stageSize : Nat} {buff : Buffer}
    (read : readStage code script codeSize stageSize device = .ok buff device) (other : Device) :
    readStage code script codeSize stageSize other = .ok buff other := by
  simp only [readStage] at read ⊢
  split at read
  · cases read
  rename_i positive
  rw [if_neg positive]
  cases script with
  | none =>
      cases read
      rfl
  | some script =>
      simp only [readScript] at read ⊢
      split at read
      · cases read
      rename_i signed
      rw [if_neg signed]
      split at read
      · cases read
      rename_i magic
      rw [if_neg magic]
      split at read
      · cases read
      rename_i positive
      rw [if_neg positive]
      cases read
      rfl

/-- A call that succeeds stores a stage, which is the same for every device. -/
theorem installStage_stores (obliging : host.Obliging)
    (run : installStage host (some code) (script.map some) doff device = .ok size staged) :
    0 < size ∧ ∃ contents, staged = device.store (doff * 512) size contents ∧
      ∀ other, installStage host (some code) (script.map some) doff other =
        .ok size (other.store (doff * 512) size contents) := by
  have writes (device : Device) : installStage host (some code) (script.map some) doff device =
      writeStage host code script doff device := by
    cases script with
    | none => exact installStage_plain obliging
    | some preboot => exact installStage_script obliging
  rw [writes] at run
  have started := run
  simp only [writeStage] at started
  split at started
  · cases started
  obtain ⟨buff, middle, read, -⟩ := Prog.bind_eq_ok.mp started
  obtain ⟨rfl, positive⟩ := readStage_positive read
  obtain ⟨rfl, moves⟩ := writeStage_moves obliging run
  rw [writeStage_ok obliging rfl read moves] at run
  cases run
  exact ⟨positive, _, rfl, fun other =>
    (writes other).trans (writeStage_ok obliging rfl (readStage_other read other) moves)⟩

end Stage

section Map

/-- The blocks up to number `last` are the same in front of the boot fields. -/
def SameMap (secsize last : Nat) (device other : Device) : Prop :=
  device.size ≤ other.size ∧ ∀ j ≤ last, ∀ i < 88, other.block (j * secsize) i = device.block (j * secsize) i

theorem readBlock_run {offset : Nat} (inside : offset + 512 ≤ device.size) (failure : Fatal) :
    readBlock offset failure device = .ok (device.block offset) device := if_pos inside

theorem readSbEntries_again {fuel part maxpart : Nat}
    (returned : readSbEntries secsize fuel part maxpart device = .ok found after) :
    part ≤ found.partIndex ∧ (SameMap secsize found.partIndex device other →
      readSbEntries secsize fuel part maxpart other = .ok found other) := by
  induction fuel generalizing part maxpart with
  | zero => cases returned
  | succ fuel ih =>
      unfold readSbEntries at returned ⊢
      split at returned
      · rename_i inMap
        rw [if_pos inMap]
        obtain ⟨mp, middle, run, rest⟩ := Prog.bind_eq_ok.mp returned
        obtain ⟨inside, rfl, rfl⟩ := readBlock_eq_ok run
        -- What is read of the block stands in front of the boot fields.
        have reads (least : part ≤ found.partIndex) (same : SameMap secsize found.partIndex middle other) :
            readBlock (part * secsize) .readingPartitionMap other = .ok (other.block (part * secsize)) other ∧
            (other.block (part * secsize)).be16 0 = (middle.block (part * secsize)).be16 0 ∧
            (other.block (part * secsize)).be32 4 = (middle.block (part * secsize)).be32 4 ∧
            (other.block (part * secsize)).be32 8 = (middle.block (part * secsize)).be32 8 ∧
            isBootstrap (other.block (part * secsize)) = isBootstrap (middle.block (part * secsize)) := by
          have byte := same.2 part least
          refine ⟨readBlock_run (inside.trans same.1) _, ?_, ?_, ?_, ?_⟩
          · simp only [Image.be16, byte 0 (by decide), byte (0 + 1) (by decide)]
          · simp only [Image.be32, Image.be16, byte 4 (by decide), byte (4 + 1) (by decide), byte (4 + 2) (by decide),
              byte (4 + 2 + 1) (by decide)]
          · simp only [Image.be32, Image.be16, byte 8 (by decide), byte (8 + 1) (by decide), byte (8 + 2) (by decide),
              byte (8 + 2 + 1) (by decide)]
          · have type : (other.block (part * secsize)).list 48 16 = (middle.block (part * secsize)).list 48 16 :=
              Image.list_congr fun index _ upper => byte index (by omega)
            rw [isBootstrap, isBootstrap, type]
        split at rest
        · cases rest
        rename_i signed
        split at rest
        · cases rest
        rename_i counted
        split at rest
        · rename_i bootstrap
          cases rest
          refine ⟨Nat.le_refl _, fun same => ?_⟩
          obtain ⟨read, signature, count, start, type⟩ := reads (Nat.le_refl _) same
          rw [Prog.bind_run_ok read, signature, if_neg signed, count, if_neg counted, type, if_pos bootstrap, start]
          rfl
        · rename_i unlike
          obtain ⟨more, again⟩ := ih rest
          refine ⟨by omega, fun same => ?_⟩
          obtain ⟨read, signature, count, start, type⟩ := reads (by omega) same
          rw [Prog.bind_run_ok read, signature, if_neg signed, count, if_neg counted, type, if_neg unlike]
          exact again same
      · cases returned

theorem readSb_again {fuel : Nat} (returned : readSb host fuel device = .ok found after)
    (same : SameMap found.secsize found.partIndex device other) : readSb host fuel other = .ok found other := by
  obtain ⟨-, room, -, selected⟩ := readSb_eq_ok returned
  unfold readSb at returned ⊢
  split at returned
  · rename_i readable
    rw [if_pos readable]
    obtain ⟨md, middle, run, rest⟩ := Prog.bind_eq_ok.mp returned
    obtain ⟨inside, rfl, rfl⟩ := readBlock_eq_ok run
    have byte := same.2 0 (Nat.zero_le _)
    rw [Nat.zero_mul] at byte
    have signature : (other.block 0).be16 0 = (middle.block 0).be16 0 := by
      simp only [Image.be16, byte 0 (by decide), byte (0 + 1) (by decide)]
    have blocks : (other.block 0).be16 2 = (middle.block 0).be16 2 := by
      simp only [Image.be16, byte 2 (by decide), byte (2 + 1) (by decide)]
    rw [Prog.bind_run_ok (readBlock_run (inside.trans same.1) _)]
    split at rest
    · cases rest
    rename_i signed
    rw [signature, if_neg signed, blocks]
    refine (readSbEntries_again rest).2 ?_
    rw [← selected.size]
    exact same
  · cases returned

end Map

section Again

/-- What a run of the installer leaves: the stage, and the marked entry. -/
theorem install_stores {fuel : Nat} (obliging : host.Obliging) (selected : readSb host fuel device = .ok found device)
    (returned : install host fuel (some code) (script.map some) device = .ok () after) :
    ∃ size contents, after = (device.store (found.doff * 512) size contents).booted
        (found.partIndex * found.secsize) size 0x3e0000 ∧
      found.partIndex * found.secsize + 512 ≤ device.size ∧ 0 < size ∧
      host.Moves (found.partIndex * found.secsize) 512 ∧
      installStage host (some code) (script.map some) found.doff device =
        .ok size (device.store (found.doff * 512) size contents) ∧
      ∀ other, installStage host (some code) (script.map some) found.doff other =
        .ok size (other.store (found.doff * 512) size contents) := by
  unfold install at returned
  rw [Prog.bind_run_ok selected] at returned
  obtain ⟨size, staged, stage, mark⟩ := Prog.bind_eq_ok.mp returned
  obtain ⟨positive, contents, rfl, again⟩ := installStage_stores obliging stage
  obtain ⟨-, -, -, entry⟩ := readSb_eq_ok selected
  have known := (entry.entries found.partIndex entry.positive (Nat.le_refl _)).1
  rw [← entry.size] at known
  have moves := makeBootable_moves obliging entry.positive mark
  rw [makeBootable_run obliging entry.positive (known.trans (store_size _ _ _)) moves] at mark
  cases mark
  exact ⟨size, contents, rfl, known, positive, moves, stage, again⟩

/-- On a device whose bootstrap partition is behind the map, the installer does its work once: a second run
succeeds and changes nothing. -/
theorem install_again {fuel : Nat} (obliging : host.Obliging) (selected : readSb host fuel device = .ok found device)
    (returned : install host fuel (some code) (script.map some) device = .ok () after)
    (sectors : 512 ≤ found.secsize) (behind : found.partIndex * found.secsize + 512 ≤ found.doff * 512) :
    install host fuel (some code) (script.map some) after = .ok () after := by
  obtain ⟨size, contents, rfl, known, positive, moves, -, again⟩ := install_stores obliging selected returned
  obtain ⟨-, -, -, entry⟩ := readSb_eq_ok selected
  let staged := device.store (found.doff * 512) size contents
  let offset := found.partIndex * found.secsize
  have inside : offset + 512 ≤ staged.size := known.trans (store_size _ _ _)
  have length : (staged.booted offset size 0x3e0000).size = staged.size := booted_size inside
  -- The map is read as before.
  have same : SameMap found.secsize found.partIndex device (staged.booted offset size 0x3e0000) := by
    refine ⟨length ▸ store_size _ _ _, fun j last i small => ?_⟩
    have place : j * found.secsize ≤ offset := Nat.mul_le_mul_right _ last
    have unstaged : staged.block (j * found.secsize) i = device.block (j * found.secsize) i :=
      store_outside (.inl (by omega))
    rw [← unstaged]
    rcases Nat.lt_or_eq_of_le last with below | rfl
    · exact booted_block_other sectors (Nat.ne_of_lt below) (by omega)
    · exact booted_outside (.inl (by omega))
  -- The stage is stored where it stands.
  have stored : (staged.booted offset size 0x3e0000).store (found.doff * 512) size contents =
      staged.booted offset size 0x3e0000 := by
    refine store_same ?_ fun i below => ?_
    · rw [length]
      have some' : size ≠ 0 := Nat.ne_of_gt positive
      simp only [staged, Device.store, if_neg some']
      exact Nat.le_max_right _ _
    · rw [booted_outside (.inr (by omega))]
      exact store_inside below
  have marked : makeBootable host found.secsize found.partIndex size 0x3e0000 (staged.booted offset size 0x3e0000) =
      .ok () (staged.booted offset size 0x3e0000) := by
    rw [makeBootable_run obliging entry.positive (length.symm ▸ inside) moves, booted_again inside]
  unfold install
  rw [Prog.bind_run_ok (readSb_again selected same), Prog.bind_run_ok (again _), stored]
  exact marked

theorem install_again_sample : ∃ after,
    install obligingHost 3 (some sampleCode) (some (some sampleScript)) sampleDevice = .ok () after ∧
      install obligingHost 3 (some sampleCode) (some (some sampleScript)) after = .ok () after := by
  have run : (install obligingHost 3 (some sampleCode) (some (some sampleScript)) sampleDevice).success?.isSome =
      true := by decide +kernel
  obtain ⟨after, success⟩ := Option.isSome_iff_exists.mp run
  obtain ⟨_, returned⟩ := Outcome.success?_eq_some.mp success
  have scripted : install obligingHost 3 (some sampleCode) ((some sampleScript).map some) sampleDevice =
      .ok () after := returned
  exact ⟨after, returned, install_again obligingHost_obliging sampleDevice_selected scripted (by decide) (by decide)⟩

end Again

end IQuik.Installer
