import IQuik.Installer.PartitionMap
import Mathlib.Order.Nat
import Mathlib.Data.Nat.Find

namespace IQuik.Installer

open IQuik.Data IQuik.Program IQuik.Storage

/-! # The loader finds what the installer has found -/

variable {host : Host} {device after : Device} {found : BootEntry} {offset stageSize loadBase : Nat}

/-- The device with the entry at `offset` marked. -/
def Device.booted (device : Device) (offset stageSize loadBase : Nat) : Device :=
  device.store offset 512 (bootable (device.block offset) stageSize loadBase)

theorem booted_outside {index : Nat} (outside : index < offset + 88 ∨ offset + 136 ≤ index) :
    (device.booted offset stageSize loadBase).bytes index = device.bytes index := by
  simp only [Device.booted, Device.store]
  split
  · rename_i inside
    rw [bootable_outside (by omega), Device.block, Nat.add_sub_cancel' inside.1]
  · rfl

theorem booted_block : (device.booted offset stageSize loadBase).block offset =
    bootable (device.block offset) stageSize loadBase := by
  funext index
  by_cases inside : index < 512
  · have here : offset ≤ offset + index ∧ offset + index < offset + 512 := by omega
    simp only [Device.block, Device.booted, Device.store, if_pos here, Nat.add_sub_cancel_left]
  · rw [bootable_outside (by omega), Device.block, booted_outside (by omega), Device.block]

theorem booted_size (inside : offset + 512 ≤ device.size) :
    (device.booted offset stageSize loadBase).size = device.size := by
  have some : ¬512 = 0 := by decide
  simp only [Device.booted, Device.store, if_neg some]
  omega

theorem booted_again (inside : offset + 512 ≤ device.size) :
    (device.booted offset stageSize loadBase).booted offset stageSize loadBase =
      device.booted offset stageSize loadBase := by
  have bytes : ((device.booted offset stageSize loadBase).booted offset stageSize loadBase).bytes =
      (device.booted offset stageSize loadBase).bytes := by
    funext index
    by_cases here : offset ≤ index
    · obtain ⟨i, rfl⟩ := Nat.exists_eq_add_of_le here
      show ((device.booted offset stageSize loadBase).booted offset stageSize loadBase).block offset i =
        (device.booted offset stageSize loadBase).block offset i
      rw [booted_block, booted_block, bootable_again]
    · exact booted_outside (by omega)
  have size : ((device.booted offset stageSize loadBase).booted offset stageSize loadBase).size =
      (device.booted offset stageSize loadBase).size := by
    apply booted_size
    rw [booted_size inside]
    exact inside
  cases left : (device.booted offset stageSize loadBase).booted offset stageSize loadBase
  cases right : device.booted offset stageSize loadBase
  simp_all

theorem makeBootable_run (obliging : host.Obliging) {secsize partIndex : Nat} (positive : 1 ≤ partIndex)
    (inside : partIndex * secsize + 512 ≤ device.size) (moves : host.Moves (partIndex * secsize) 512) :
    makeBootable host secsize partIndex stageSize loadBase device =
      .ok () (device.booted (partIndex * secsize) stageSize loadBase) := by
  have entry : partIndex ≠ 0 := by omega
  have read : readBlock (partIndex * secsize) .readingEntry device =
      .ok (device.block (partIndex * secsize)) device := by
    simp only [readBlock, if_pos inside]
    rfl
  simp only [makeBootable, if_neg entry, obliging.writable, not_true, if_false]
  rw [Prog.bind_run_ok read]
  simp only [obliging.seeks, not_true, if_false]
  rw [Prog.bind_run_ok (doWrite_whole obliging moves _)]
  rfl

/-- A call that succeeds has written the block. -/
theorem makeBootable_moves (obliging : host.Obliging) {secsize partIndex : Nat} (positive : 1 ≤ partIndex)
    (returned : makeBootable host secsize partIndex stageSize loadBase device = .ok () after) :
    host.Moves (partIndex * secsize) 512 := by
  have entry : partIndex ≠ 0 := by omega
  simp only [makeBootable, if_neg entry, obliging.writable, obliging.seeks, not_true, if_false] at returned
  obtain ⟨mp, middle, -, rest⟩ := Prog.bind_eq_ok.mp returned
  obtain ⟨written, final, write, last⟩ := Prog.bind_eq_ok.mp rest
  split at last
  · cases last
  · rename_i whole
    rw [not_not.mp whole] at write
    exact doWrite_moves obliging write

/-- The entry in block `j` is marked bootable for PowerPC. -/
def Device.Marked (device : Device) (secsize j : Nat) : Prop := BootablePowerPC (device.block (j * secsize))

section Sectors

variable {secsize k : Nat}

/-- Blocks of whole sectors do not overlap. -/
theorem booted_block_other (sectors : 512 ≤ secsize) {j : Nat} (other : j ≠ k) {index : Nat}
    (inside : index < 512) :
    (device.booted (k * secsize) stageSize loadBase).block (j * secsize) index =
      device.block (j * secsize) index := by
  apply booted_outside
  rcases Nat.lt_or_gt_of_ne other with below | above
  · have gap : (j + 1) * secsize ≤ k * secsize := Nat.mul_le_mul_right _ below
    rw [Nat.succ_mul] at gap
    omega
  · have gap : (k + 1) * secsize ≤ j * secsize := Nat.mul_le_mul_right _ above
    rw [Nat.succ_mul] at gap
    omega

theorem booted_be16 (sectors : 512 ≤ secsize) (j : Nat) :
    ((device.booted (k * secsize) stageSize loadBase).block (j * secsize)).be16 0 =
      (device.block (j * secsize)).be16 0 := by
  have same (i : Nat) (small : i < 88) :
      (device.booted (k * secsize) stageSize loadBase).block (j * secsize) i = device.block (j * secsize) i := by
    by_cases own : j = k
    · subst own
      exact booted_outside (by omega)
    · exact booted_block_other sectors own (by omega)
  simp only [Image.be16, same 0 (by omega), same (0 + 1) (by omega)]

theorem booted_count (sectors : 512 ≤ secsize) (j : Nat) :
    ((device.booted (k * secsize) stageSize loadBase).block (j * secsize)).be32 4 =
      (device.block (j * secsize)).be32 4 := by
  have same (i : Nat) (small : i < 88) :
      (device.booted (k * secsize) stageSize loadBase).block (j * secsize) i = device.block (j * secsize) i := by
    by_cases own : j = k
    · subst own
      exact booted_outside (by omega)
    · exact booted_block_other sectors own (by omega)
  simp only [Image.be32, Image.be16, same 4 (by omega), same (4 + 1) (by omega), same (4 + 2) (by omega),
    same (4 + 2 + 1) (by omega)]

end Sectors

/-- The first entry that is marked, at or before one that is. -/
theorem first_marked {secsize k : Nat} (positive : 1 ≤ k) (marked : device.Marked secsize k) :
    ∃ target, 1 ≤ target ∧ target ≤ k ∧ device.Marked secsize target ∧
      ∀ j, 1 ≤ j → j < target → ¬device.Marked secsize j := by
  classical
  have some : ∃ j, 1 ≤ j ∧ device.Marked secsize j := ⟨k, positive, marked⟩
  refine ⟨Nat.find some, (Nat.find_spec some).1, Nat.find_min' some ⟨positive, marked⟩,
    (Nat.find_spec some).2, fun j lower below known => Nat.find_min some below ⟨lower, known⟩⟩

/-- On the marked device the loader finds the first entry that is marked. -/
theorem booted_finds {secsize target : Nat} (room : 512 ≤ device.size)
    (mac : (device.block 0).be16 0 = 0x4552) (size : (device.block 0).be16 2 = secsize)
    (selected : Selected device secsize found) (whole : 512 ≤ secsize)
    {booted : Device} (marks : booted = device.booted (found.partIndex * secsize) stageSize loadBase)
    (positive : 1 ≤ target) (below : target ≤ found.partIndex) (marked : booted.Marked secsize target)
    (first : ∀ j, 1 ≤ j → j < target → ¬booted.Marked secsize j)
    {enough : Nat} (more : target ≤ enough) (dev : Nat) (fs : Fs) : ∃ final,
    readMacPartition booted.machine enough dev 0 fs =
      .ok (macExtent secsize (booted.block (target * secsize))) final := by
  subst marks
  have least : 1 * secsize ≤ found.partIndex * secsize := Nat.mul_le_mul_right _ selected.positive
  have inside := (selected.entries found.partIndex selected.positive (Nat.le_refl _)).1
  have header (index : Nat) (small : index < 512) :
      (device.booted (found.partIndex * secsize) stageSize loadBase).block 0 index =
        device.block 0 index := booted_outside (by omega)
  have header16 (index : Nat) (small : index < 256) :
      ((device.booted (found.partIndex * secsize) stageSize loadBase).block 0).be16 index =
        (device.block 0).be16 index := by
    simp only [Image.be16, header index (by omega), header (index + 1) (by omega)]
  have entries : ∀ j, 1 ≤ j → j ≤ target →
      (device.booted (found.partIndex * secsize) stageSize loadBase).Entry secsize j := by
    intro j lower upper
    obtain ⟨fits, signed⟩ := selected.entries j lower (by omega)
    exact ⟨by rw [booted_size inside]; exact fits, by rw [booted_be16 whole]; exact signed⟩
  have counted : target = 1 ∨ target ≤
      ((device.booted (found.partIndex * secsize) stageSize loadBase).block (1 * secsize)).be32 4 := by
    rw [booted_count whole]
    rcases selected.counted with one | count
    · exact .inl (by omega)
    · exact .inr (by omega)
  exact readMacPartition_run (by rw [booted_size inside]; exact room) ((header16 0 (by omega)).trans mac)
    ((header16 2 (by omega)).trans size) (Nat.lt_of_le_of_lt below selected.small) positive entries
    ((macEntryWanted_iff positive _).mpr marked)
    (fun j lower upper => Bool.eq_false_iff.mpr fun wanted =>
      first j lower upper ((macEntryWanted_iff lower _).mp wanted)) counted more fs

/-- What `read_sb` returns, `read_mac_partition` finds; and after
`make_bootable` it finds the first bootable partition, with nothing else
changed. -/
theorem installer_agrees (obliging : host.Obliging) {fuel : Nat}
    (returned : readSb host fuel device = .ok found after)
    (sectors : 0 < found.secsize ∧ 512 ∣ found.secsize)
    (moves : host.Moves (found.partIndex * found.secsize) 512) (stageSize loadBase : Nat) :
    (∀ enough ≥ found.partIndex, ∀ dev fs, ∃ extent final,
      readMacPartition device.machine enough dev found.partIndex fs = .ok extent final ∧
      extent.start = found.doff * 512) ∧
    ∃ booted, makeBootable host found.secsize found.partIndex stageSize loadBase device = .ok () booted ∧
      (∃ target, 1 ≤ target ∧ booted.Marked found.secsize target ∧
        (∀ j, 1 ≤ j → j < target → ¬booted.Marked found.secsize j) ∧
        (target = found.partIndex ∨ target < found.partIndex ∧ device.Marked found.secsize target) ∧
        ∀ enough ≥ target, ∀ dev fs, ∃ final,
          readMacPartition booted.machine enough dev 0 fs =
            .ok { start := (booted.block (target * found.secsize)).be32 8 * found.secsize,
                  len := (booted.block (target * found.secsize)).be32 12 * found.secsize } final) ∧
      (∀ index, index < found.partIndex * found.secsize + 88 ∨
        found.partIndex * found.secsize + 136 ≤ index → booted.bytes index = device.bytes index) ∧
      makeBootable host found.secsize found.partIndex stageSize loadBase booted = .ok () booted := by
  obtain ⟨-, room, mac, selected⟩ := readSb_eq_ok returned
  have size := selected.size.symm
  rw [size] at selected
  have positive := selected.positive
  have whole : 512 ≤ found.secsize := Nat.le_of_dvd sectors.1 sectors.2
  have inside := (selected.entries found.partIndex positive (Nat.le_refl _)).1
  constructor
  · intro enough more dev fs
    have wanted : macEntryWanted found.partIndex found.partIndex
        (device.block (found.partIndex * found.secsize)) = true := by simp [macEntryWanted]
    have unwanted : ∀ j, 1 ≤ j → j < found.partIndex →
        macEntryWanted found.partIndex j (device.block (j * found.secsize)) = false := by
      intro j _ below
      have other : found.partIndex ≠ j := by omega
      have named : found.partIndex ≠ 0 := by omega
      simp [macEntryWanted, other, named]
    obtain ⟨final, run⟩ := readMacPartition_run room mac size selected.small positive selected.entries
      wanted unwanted selected.counted more fs
    refine ⟨_, final, run, ?_⟩
    rw [selected.doff, Nat.mul_assoc, Nat.div_mul_cancel sectors.2]
    rfl
  · refine ⟨_, makeBootable_run obliging positive inside moves, ?_, fun index => booted_outside, ?_⟩
    · have own : (device.booted (found.partIndex * found.secsize) stageSize loadBase).Marked
          found.secsize found.partIndex := by
        rw [Device.Marked, booted_block]
        exact bootable_marked _ _ _
      obtain ⟨target, lower, upper, marked, first⟩ := first_marked positive own
      refine ⟨target, lower, marked, first, ?_, fun enough more dev fs =>
        booted_finds room mac size selected whole rfl lower upper marked first more dev fs⟩
      by_cases same : target = found.partIndex
      · exact .inl same
      · refine .inr ⟨by omega, ?_⟩
        exact marked.congr fun index small => booted_block_other whole same small
    · have stillInside : found.partIndex * found.secsize + 512 ≤
          (device.booted (found.partIndex * found.secsize) stageSize loadBase).size := by
        rw [booted_size inside]
        exact inside
      rw [makeBootable_run obliging positive stillInside moves, booted_again inside]

/-- A disk of 512-byte blocks; entry 2 of its map is the bootstrap partition,
and entry 1 is bootable already. -/
def sampleDevice : Device where
  size := 1048576
  bytes := .ofRuns
    [(0, [0x45, 0x52, 2, 0]),
     (512, [0x50, 0x4d, 0, 0, 0, 0, 0, 2, 0, 0, 0, 1, 0, 0, 0, 8]),
     (600, [0, 0, 0, 8]),
     (632, str "PowerPC"),
     (1024, [0x50, 0x4d, 0, 0, 0, 0, 0, 2, 0, 0, 0, 64, 0, 0, 0, 8]),
     (1072, str "Apple_Bootstrap")]

theorem sampleDevice_read : ∃ after,
    readSb obligingHost 3 sampleDevice = .ok { partIndex := 2, doff := 64, secsize := 512 } after := by
  have run : (readSb obligingHost 3 sampleDevice).result?.map Prod.fst =
      some { partIndex := 2, doff := 64, secsize := 512 } := by decide +kernel
  obtain ⟨result, returned, value⟩ := Option.map_eq_some_iff.mp run
  refine ⟨result.2, ?_⟩
  rw [← value]
  exact Outcome.result?_eq_some.mp returned

/-- Entry 1 was marked before, so it is the one that is found with 0. -/
theorem installer_agrees_sample :
    (∃ extent final, readMacPartition sampleDevice.machine 2 1 2 .startUp = .ok extent final ∧
      extent.start = 64 * 512) ∧
    ∃ booted, makeBootable obligingHost 512 2 600 0x3e0000 sampleDevice = .ok () booted ∧
      (∃ final, readMacPartition booted.machine 2 1 0 .startUp = .ok { start := 1 * 512, len := 8 * 512 } final) ∧
      makeBootable obligingHost 512 2 600 0x3e0000 booted = .ok () booted := by
  obtain ⟨after, returned⟩ := sampleDevice_read
  obtain ⟨finds, booted, run, ⟨target, positive, -, first, near, found⟩, kept, again⟩ :=
    installer_agrees obligingHost_obliging returned ⟨by decide, by decide⟩ (by unfold Host.Moves; decide) 600 0x3e0000
  have same (index : Nat) (small : index < 512) :
      booted.block (1 * 512) index = sampleDevice.block (1 * 512) index := kept _ (.inl (by dsimp only; omega))
  have marked : booted.Marked 512 1 := BootablePowerPC.congr (fun index small => (same index small).symm)
    ⟨by decide +kernel, by decide +kernel, by decide +kernel⟩
  have one : target = 1 := by
    by_contra later
    exact first 1 (Nat.le_refl 1) (by omega) marked
  subst one
  obtain ⟨final, zero⟩ := found 2 (by decide) 1 .startUp
  have start : (booted.block (1 * 512)).be32 8 = (sampleDevice.block (1 * 512)).be32 8 := by
    simp only [Image.be32, Image.be16, same _ (show 8 < 512 by decide), same _ (show 8 + 1 < 512 by decide),
      same _ (show 8 + 2 < 512 by decide), same _ (show 8 + 2 + 1 < 512 by decide)]
  have len : (booted.block (1 * 512)).be32 12 = (sampleDevice.block (1 * 512)).be32 12 := by
    simp only [Image.be32, Image.be16, same _ (show 12 < 512 by decide), same _ (show 12 + 1 < 512 by decide),
      same _ (show 12 + 2 < 512 by decide), same _ (show 12 + 2 + 1 < 512 by decide)]
  refine ⟨finds 2 (Nat.le_refl _) 1 .startUp, booted, run, ⟨final, ?_⟩, again⟩
  have fields : (sampleDevice.block (1 * 512)).be32 8 = 1 ∧ (sampleDevice.block (1 * 512)).be32 12 = 8 := by
    decide +kernel
  rw [zero, start, len, fields.1, fields.2]

end IQuik.Installer
