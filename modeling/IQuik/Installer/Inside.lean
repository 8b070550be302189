import IQuik.Installer.MapAgreement

namespace IQuik.Installer

open IQuik.Data IQuik.Program

/-! # What the installer may change -/

variable {host : Host} {device after : Device} {offset : Nat}

theorem doWrite_eq_ok {count written : Nat} {contents : Image}
    (returned : doWrite host offset count contents device = .ok written after) :
    after = device ∨ ∃ written, written ≤ count ∧ after = device.store offset written contents := by
  simp only [doWrite] at returned
  split at returned
  · cases returned
    exact .inl rfl
  · cases returned
    exact .inr ⟨_, Nat.min_le_right _ _, rfl⟩

theorem store_outside {count : Nat} {contents : Image} {index : Nat}
    (outside : index < offset ∨ offset + count ≤ index) :
    (device.store offset count contents).bytes index = device.bytes index :=
  if_neg (by omega)

variable {code : File} {script : Option File} {doff stageSize : Nat}

/-- A stage that is written is not empty: it has the code at least. -/
theorem readStage_positive {buff : Buffer}
    (read : readStage code script (stageSizes code script).1 (stageSizes code script).2 device =
      .ok buff after) : after = device ∧ 0 < (stageSizes code script).2 := by
  have codeSmall := code.small
  simp only [readStage] at read
  split at read
  · cases read
  rename_i positive
  have some : 0 < (code.bytes.take (stageSizes code script).1).length := by
    apply Nat.pos_of_ne_zero
    intro zero
    rw [zero] at positive
    exact positive (by decide)
  rw [List.length_take] at some
  cases script with
  | none =>
      cases read
      refine ⟨rfl, ?_⟩
      simp only [stageSizes] at some ⊢
      omega
  | some script =>
      have scriptSmall := script.small
      simp only [readScript] at read
      split at read
      · cases read
      rename_i signature
      split at read
      · cases read
      split at read
      · cases read
      cases read
      have behind : 0 < ((code.bytes.drop (stageSizes code (.some script)).1).take 4).length := by
        apply Nat.pos_of_ne_zero
        intro zero
        rw [zero] at signature
        exact signature (by decide)
      rw [List.length_take, List.length_drop] at behind
      refine ⟨rfl, ?_⟩
      simp only [stageSizes] at some behind ⊢
      omega

/-- A call that succeeds has written the whole stage, at most. -/
theorem installStage_eq_ok
    (returned : installStage host (some code) (script.map some) doff device = .ok stageSize after) :
    stageSize = (stageSizes code script).2 ∧ 0 < stageSize ∧
      ∀ index, index < doff * 512 ∨ doff * 512 + stageSize ≤ index → after.bytes index = device.bytes index := by
  have written : writeStage host code script doff device = .ok stageSize after := by
    simp only [installStage] at returned
    split at returned
    · cases returned
    · cases script with
      | none => exact returned
      | some script => exact returned
  simp only [writeStage] at written
  split at written
  · cases written
  obtain ⟨buff, middle, read, rest⟩ := Prog.bind_eq_ok.mp written
  obtain ⟨rfl, positive⟩ := readStage_positive read
  split at rest
  · cases rest
  obtain ⟨count, final, write, last⟩ := Prog.bind_eq_ok.mp rest
  split at last
  · cases last
  cases last
  refine ⟨rfl, positive, fun index outside => ?_⟩
  rcases doWrite_eq_ok write with rfl | ⟨part, less, rfl⟩
  · rfl
  · exact store_outside (by omega)

theorem makeBootable_eq_ok {secsize partIndex loadBase : Nat}
    (returned : makeBootable host secsize partIndex stageSize loadBase device = .ok () after)
    {index : Nat} (outside : index < partIndex * secsize + 88 ∨ partIndex * secsize + 136 ≤ index) :
    after.bytes index = device.bytes index := by
  simp only [makeBootable] at returned
  split at returned
  · cases returned
    rfl
  split at returned
  · cases returned
  obtain ⟨mp, middle, read, rest⟩ := Prog.bind_eq_ok.mp returned
  obtain ⟨-, rfl, rfl⟩ := readBlock_eq_ok read
  split at rest
  · cases rest
  obtain ⟨written, final, write, last⟩ := Prog.bind_eq_ok.mp rest
  split at last
  · cases last
  cases last
  rcases doWrite_eq_ok write with rfl | ⟨part, less, rfl⟩
  · rfl
  · simp only [Device.store]
    split
    · rename_i inside
      rw [bootable_outside (by omega), Device.block, Nat.add_sub_cancel' inside.1]
    · rfl

/-! # The extent of the partition -/

/-- The partition of the entry `mp`, in bytes. -/
def InPartition (mp : Image) (secsize index : Nat) : Prop :=
  mp.be32 8 * secsize ≤ index ∧ index < (mp.be32 8 + mp.be32 12) * secsize

/-- The block of map entry `k`. -/
def InEntry (secsize k index : Nat) : Prop := k * secsize ≤ index ∧ index < (k + 1) * secsize

/-- The stage has its place in the partition: the partition starts where the
installer takes it to start, and is long enough. -/
def Fits (mp : Image) (secsize stageSize : Nat) : Prop :=
  (mp.be32 8 = 0 ∨ 512 ∣ secsize) ∧ stageSize ≤ mp.be32 12 * secsize

theorem stageExtent_inside_iff (mp : Image) (secsize : Nat) (positive : 0 < stageSize) :
    (∀ index, mp.be32 8 * (secsize / 512) * 512 ≤ index →
      index < mp.be32 8 * (secsize / 512) * 512 + stageSize → InPartition mp secsize index) ↔
    Fits mp secsize stageSize := by
  have rounded : secsize / 512 * 512 ≤ secsize := Nat.div_mul_le_self _ _
  constructor
  · intro inside
    have first := inside _ (Nat.le_refl _) (Nat.lt_add_of_pos_right positive)
    have last := inside (mp.be32 8 * (secsize / 512) * 512 + (stageSize - 1)) (Nat.le_add_right _ _)
      (Nat.add_lt_add_left (Nat.sub_lt positive Nat.one_pos) _)
    have start : mp.be32 8 * (secsize / 512) * 512 = mp.be32 8 * secsize := by
      apply Nat.le_antisymm
      · rw [Nat.mul_assoc]
        exact Nat.mul_le_mul_left _ rounded
      · exact first.1
    constructor
    · by_cases zero : mp.be32 8 = 0
      · exact .inl zero
      · rw [Nat.mul_assoc] at start
        have exact' := Nat.eq_of_mul_eq_mul_left (Nat.pos_of_ne_zero zero) start
        exact .inr ⟨secsize / 512, by omega⟩
    · have limit := last.2
      rw [start, Nat.add_mul] at limit
      omega
  · intro fits index lower upper
    have start : mp.be32 8 * (secsize / 512) * 512 = mp.be32 8 * secsize := by
      rcases fits.1 with zero | sectors
      · rw [zero, Nat.zero_mul, Nat.zero_mul, Nat.zero_mul]
      · rw [Nat.mul_assoc, Nat.div_mul_cancel sectors]
    have room := fits.2
    rw [start] at lower upper
    refine ⟨lower, ?_⟩
    rw [Nat.add_mul]
    omega

/-- The stage is written to the partition alone exactly when it fits there; a
run then changes nothing outside the partition and its entry. -/
theorem install_inside {fuel : Nat} {found : BootEntry}
    (selected : readSb host fuel device = .ok found device)
    (returned : install host fuel (some code) (script.map some) device = .ok () after) :
    ((∀ index, found.doff * 512 ≤ index → index < found.doff * 512 + (stageSizes code script).2 →
        InPartition (device.block (found.partIndex * found.secsize)) found.secsize index) ↔
      Fits (device.block (found.partIndex * found.secsize)) found.secsize (stageSizes code script).2) ∧
    (Fits (device.block (found.partIndex * found.secsize)) found.secsize (stageSizes code script).2 →
      136 ≤ found.secsize → ∀ index,
        ¬InPartition (device.block (found.partIndex * found.secsize)) found.secsize index →
        ¬InEntry found.secsize found.partIndex index → after.bytes index = device.bytes index) := by
  unfold install at returned
  rw [Prog.bind_run_ok selected] at returned
  obtain ⟨stageSize, staged, stage, mark⟩ := Prog.bind_eq_ok.mp returned
  obtain ⟨size, positive, kept⟩ := installStage_eq_ok stage
  obtain ⟨-, -, -, entry⟩ := readSb_eq_ok selected
  have doff := entry.doff
  rw [← entry.size] at doff
  have extent := stageExtent_inside_iff (device.block (found.partIndex * found.secsize)) found.secsize positive
  rw [← doff, size] at extent
  refine ⟨extent, fun fits whole index notPartition notEntry => ?_⟩
  have unmarked : staged.bytes index = device.bytes index := by
    apply kept
    by_contra inside
    exact notPartition (extent.mpr fits index (by omega) (by omega))
  rw [← unmarked]
  apply makeBootable_eq_ok mark
  by_contra inside
  have next : (found.partIndex + 1) * found.secsize = found.partIndex * found.secsize + found.secsize :=
    Nat.succ_mul _ _
  exact notEntry ⟨by omega, by omega⟩

theorem sampleDevice_selected :
    readSb obligingHost 3 sampleDevice = .ok { partIndex := 2, doff := 64, secsize := 512 } sampleDevice := by
  obtain ⟨after, returned⟩ := sampleDevice_read
  obtain ⟨rfl, -⟩ := readSb_eq_ok returned
  exact returned

/-- The sample partition has eight blocks. -/
theorem install_inside_sample : ∃ after, install obligingHost 3 (some sampleCode) none sampleDevice = .ok () after ∧
    after.bytes 600 = sampleDevice.bytes 600 := by
  have run : (install obligingHost 3 (some sampleCode) none sampleDevice).success?.isSome = true := by
    decide +kernel
  obtain ⟨after, success⟩ := Option.isSome_iff_exists.mp run
  obtain ⟨_, returned⟩ := Outcome.success?_eq_some.mp success
  have plain : install obligingHost 3 (some sampleCode) ((none : Option File).map some) sampleDevice =
      .ok () after := returned
  have fits : Fits (sampleDevice.block (2 * 512)) 512 (stageSizes sampleCode none).2 := by
    unfold Fits
    decide +kernel
  have notPartition : ¬InPartition (sampleDevice.block (2 * 512)) 512 600 := by
    unfold InPartition
    decide +kernel
  exact ⟨after, returned, (install_inside sampleDevice_selected plain).2 fits (by decide) 600 notPartition
    (by unfold InEntry; decide)⟩

/-- The size of the boot code that is distributed goes beyond eight blocks. -/
def largeCode : File := { bytes := List.replicate 5000 1, small := by rw [List.length_replicate]; decide }

/-- The partition ends at byte 36864, and its entry is at byte 1024: the byte
after the end of the partition changes. -/
theorem install_not_inside : ∃ after,
    install obligingHost 3 (some largeCode) none sampleDevice = .ok () after ∧
    ¬InPartition (sampleDevice.block (2 * 512)) 512 36864 ∧ ¬InEntry 512 2 36864 ∧
    after.bytes 36864 ≠ sampleDevice.bytes 36864 := by
  have run : (install obligingHost 3 (some largeCode) none sampleDevice).success?.map
      (fun after => after.bytes 36864) = some 1 := by decide +kernel
  obtain ⟨after, success, value⟩ := Option.map_eq_some_iff.mp run
  obtain ⟨_, returned⟩ := Outcome.success?_eq_some.mp success
  refine ⟨after, returned, ?_, ?_, ?_⟩
  · unfold InPartition
    decide +kernel
  · unfold InEntry
    decide
  · rw [value]
    decide +kernel

end IQuik.Installer
