import IQuik.Installer.Stage
import IQuik.Storage.Partition
import Mathlib.Algebra.Ring.Nat
import Mathlib.Data.Nat.Bitwise

namespace IQuik.Installer

open IQuik.Data IQuik.Program

/-! # The map entry that `make_bootable` writes -/

section Fields

variable {image : Image} {fields : List (Nat × List UInt8)} {index : Nat}

/-- The image with all the fields set, the last one on top. -/
abbrev puts (image : Image) (fields : List (Nat × List UInt8)) : Image :=
  fields.foldl (fun image field => put image field.1 field.2) image

theorem put_outside {offset : Nat} {field : List UInt8}
    (outside : index < offset ∨ offset + field.length ≤ index) : put image offset field index = image index :=
  if_neg (by omega)

theorem put_inside {offset i : Nat} {field : List UInt8} (inside : i < field.length) :
    put image offset field (offset + i) = listImage field i := by
  have here : offset ≤ offset + i ∧ offset + i < offset + field.length := by omega
  simp only [put, if_pos here, Nat.add_sub_cancel_left]

theorem puts_outside
    (outside : ∀ field ∈ fields, index < field.1 ∨ field.1 + field.2.length ≤ index) :
    puts image fields index = image index := by
  induction fields generalizing image with
  | nil => rfl
  | cons field rest ih =>
      have later : puts (put image field.1 field.2) rest index = put image field.1 field.2 index :=
        ih fun other member => outside other (.tail _ member)
      exact later.trans (put_outside (outside field (.head _)))

/-- Fields that do not overlap are all there. -/
theorem puts_field (apart : fields.Pairwise fun first second => first.1 + first.2.length ≤ second.1)
    {field : Nat × List UInt8} (member : field ∈ fields) {i : Nat} (inside : i < field.2.length) :
    puts image fields (field.1 + i) = listImage field.2 i := by
  induction fields generalizing image with
  | nil => cases member
  | cons first rest ih =>
      obtain ⟨before, apartRest⟩ := List.pairwise_cons.mp apart
      rcases List.mem_cons.mp member with rfl | later
      · have kept : puts (put image field.1 field.2) rest (field.1 + i) =
            put image field.1 field.2 (field.1 + i) := by
          apply puts_outside
          intro other old
          have := before other old
          omega
        exact kept.trans (put_inside inside)
      · exact ih apartRest later

/-- Setting fields to what they are changes nothing. -/
theorem puts_same (same : ∀ field ∈ fields, ∀ i, i < field.2.length → image (field.1 + i) = listImage field.2 i) :
    puts image fields = image := by
  induction fields with
  | nil => rfl
  | cons field rest ih =>
      have first : put image field.1 field.2 = image := by
        funext index
        by_cases inside : field.1 ≤ index ∧ index < field.1 + field.2.length
        · obtain ⟨i, rfl⟩ := Nat.exists_eq_add_of_le inside.1
          have below : i < field.2.length := by omega
          rw [put_inside below, same field (.head _) i below]
        · exact put_outside (by omega)
      simp only [List.foldl_cons, first]
      exact ih fun other member => same other (.tail _ member)

end Fields

variable {mp : Image} {stageSize loadBase : Nat}

theorem bootFields_apart : (bootFields mp stageSize loadBase).Pairwise
    fun first second => first.1 + first.2.length ≤ second.1 := by
  simp [bootFields, be32Bytes]

theorem bootFields_range : ∀ field ∈ bootFields mp stageSize loadBase,
    88 ≤ field.1 ∧ field.1 + field.2.length ≤ 136 := by
  simp [bootFields, be32Bytes, str]

/-- Only the boot fields change. -/
theorem bootable_outside {index : Nat} (outside : index < 88 ∨ 136 ≤ index) :
    bootable mp stageSize loadBase index = mp index := by
  apply puts_outside
  intro field member
  have range := bootFields_range field member
  omega

theorem be32_be32Bytes {image : Image} {offset value : Nat} (small : value < 2 ^ 32)
    (field : ∀ i, i < 4 → image (offset + i) = listImage (be32Bytes value) i) :
    image.be32 offset = value := by
  have first : image offset = (value / 2 ^ 24).toUInt8 := field 0 (by omega)
  have second : image (offset + 1) = (value / 2 ^ 16).toUInt8 := field 1 (by omega)
  have third : image (offset + 2) = (value / 2 ^ 8).toUInt8 := field 2 (by omega)
  have fourth : image (offset + 3) = value.toUInt8 := field 3 (by omega)
  unfold Image.be32 Image.be16
  rw [first, second, third, Nat.add_assoc offset 2 1, fourth]
  simp only [Nat.toUInt8, UInt8.toNat_ofNat']
  omega

theorem status_small : mp.be32 88 ||| 8 < 2 ^ 32 := Nat.or_lt_two_pow (mp.be32_lt 88) (by decide)

theorem bootable_status : (bootable mp stageSize loadBase).be32 88 = mp.be32 88 ||| 8 := by
  apply be32_be32Bytes status_small
  intro i inside
  exact puts_field bootFields_apart (.head _) (by simpa [be32Bytes] using inside)

/-- Marking an entry a second time changes nothing. -/
theorem bootable_again : bootable (bootable mp stageSize loadBase) stageSize loadBase =
    bootable mp stageSize loadBase := by
  have fields : bootFields (bootable mp stageSize loadBase) stageSize loadBase =
      bootFields mp stageSize loadBase := by
    simp only [bootFields, bootable_status, Nat.or_assoc, Nat.or_self]
  apply puts_same
  rw [fields]
  intro field member i inside
  exact puts_field bootFields_apart member inside

theorem bootable_processor {i : Nat} (inside : i < 16) :
    bootable mp stageSize loadBase (120 + i) = listImage (str "PowerPC" ++ List.replicate 9 0) i := by
  have member : (120, str "PowerPC" ++ List.replicate 9 0) ∈ bootFields mp stageSize loadBase := by
    simp [bootFields]
  exact puts_field bootFields_apart member inside

/-! ## Entries that are marked -/

/-- A map entry that is marked bootable for PowerPC: bit `STATUS_BOOTABLE` of its
status is set, and its `processor` is the string `powerpc` in any case. -/
structure BootablePowerPC (mp : Image) : Prop where
  status : mp.be32 88 &&& 8 ≠ 0
  processor : ∀ i < 7, mp (120 + i) = listImage (str "powerpc") i ∨ mp (120 + i) = listImage (str "POWERPC") i
  ends : mp 127 = 0

theorem BootablePowerPC.congr {left right : Image} (same : ∀ index, index < 512 → left index = right index)
    (marked : BootablePowerPC left) : BootablePowerPC right := by
  have status : left.be32 88 = right.be32 88 := by
    simp only [Image.be32, Image.be16, same 88 (by omega), same (88 + 1) (by omega),
      same (88 + 2) (by omega), same (88 + 2 + 1) (by omega)]
  refine ⟨status ▸ marked.status, fun i below => ?_, (same 127 (by omega)).symm.trans marked.ends⟩
  rw [← same (120 + i) (by omega)]
  exact marked.processor i below

/-- `make_bootable` marks the entry. -/
theorem bootable_marked (mp : Image) (stageSize loadBase : Nat) : BootablePowerPC (bootable mp stageSize loadBase) where
  status := by
    rw [bootable_status, Nat.and_or_distrib_right, Nat.and_self]
    exact fun none => absurd (Nat.or_eq_zero_iff.mp none).2 (by decide)
  processor i below := by
    have letters : ∀ i < 7, listImage (str "PowerPC" ++ List.replicate 9 0) i = listImage (str "powerpc") i ∨
        listImage (str "PowerPC" ++ List.replicate 9 0) i = listImage (str "POWERPC") i := by decide
    rw [bootable_processor (by omega)]
    exact letters i below
  ends := bootable_processor (i := 7) (by decide)

theorem and_eight_ne_zero (status : Nat) : status &&& 8 ≠ 0 ↔ status / 8 % 2 = 1 := by
  have bit : status.testBit 3 = decide (status / 8 % 2 = 1) := Nat.testBit_eq_decide_div_mod_eq
  have mask : status &&& 2 ^ 3 = (status.testBit 3).toNat * 2 ^ 3 := Nat.and_two_pow status 3
  rw [show 8 = 2 ^ 3 from rfl, mask, bit]
  simp

/-- The C function maps a character to a small letter if it is that or its capital. -/
theorem tolower_eq_iff {c letter : UInt8} (small : 0x61 ≤ letter ∧ letter ≤ 0x7a) :
    tolower c = letter ↔ c = letter ∨ c = letter - 0x20 := by
  unfold tolower
  grind

theorem tolower_eq_zero {c : UInt8} : tolower c = 0 ↔ c = 0 := by
  unfold tolower
  grind

/-- What the loader looks for with the number 0. -/
theorem macEntryWanted_iff {j : Nat} (positive : 1 ≤ j) (mp : Image) :
    Storage.macEntryWanted 0 j mp = true ↔ BootablePowerPC mp := by
  have other : (0 == j) = false := by simp; omega
  have area : mp.list 120 8 = (List.range 7).map (fun i => mp (120 + i)) ++ [mp 127] := rfl
  have name : ((List.range 7).map fun i => mp (120 + i)).map tolower = str "powerpc" ↔
      ∀ i < 7, mp (120 + i) = listImage (str "powerpc") i ∨ mp (120 + i) = listImage (str "POWERPC") i := by
    have spelled : str "powerpc" = (List.range 7).map (listImage (str "powerpc")) := by decide
    have letters : ∀ i < 7, (0x61 ≤ listImage (str "powerpc") i ∧ listImage (str "powerpc") i ≤ 0x7a) ∧
      listImage (str "powerpc") i - 0x20 = listImage (str "POWERPC") i := by decide
    rw [List.map_map, spelled, List.map_inj_left]
    simp only [List.mem_range, Function.comp_apply]
    rw [← spelled]
    refine forall₂_congr fun i below => ?_
    rw [tolower_eq_iff (letters i below).1, (letters i below).2]
  have whole : (mp.list 120 8).map tolower = str "powerpc" ++ [0] ↔
      (∀ i < 7, mp (120 + i) = listImage (str "powerpc") i ∨ mp (120 + i) = listImage (str "POWERPC") i) ∧
      mp 127 = 0 := by
    rw [area, List.map_append, ← name, List.map_singleton]
    constructor
    · intro same
      obtain ⟨letters, last⟩ := List.append_inj same rfl
      exact ⟨letters, tolower_eq_zero.mp (List.singleton_inj.mp last)⟩
    · rintro ⟨letters, last⟩
      rw [letters, tolower_eq_zero.mpr last]
  simp only [Storage.macEntryWanted, other, Bool.false_or, beq_self_eq_true, Bool.true_and, Bool.and_eq_true, beq_iff_eq]
  rw [← and_eight_ne_zero, whole]
  exact ⟨fun ⟨status, processor, ends⟩ => ⟨status, processor, ends⟩, fun ⟨status, processor, ends⟩ => ⟨status, processor, ends⟩⟩

/-! # One map, two readers -/

/-- The block at `offset`. -/
def Device.block (device : Device) (offset : Nat) : Image := fun index => device.bytes (offset + index)

/-- The firmware's view of the device. -/
def Device.machine (device : Device) : Storage.Machine where
  openDevice _ _ := some 1
  read _ _ offset nbytes :=
    { count := min nbytes (device.size - offset), bytes := device.block offset }
  grants _ _ := true
  nwFullDisk := false

/-- There is a map entry in block `j`. -/
def Device.Entry (device : Device) (secsize j : Nat) : Prop :=
  j * secsize + 512 ≤ device.size ∧ (device.block (j * secsize)).be16 0 = 0x504d

variable {host : Host} {device after : Device} {found : BootEntry} {secsize : Nat}

theorem readBlock_eq_ok {offset : Nat} {failure : Fatal} {block : Image}
    (returned : readBlock offset failure device = .ok block after) :
    offset + 512 ≤ device.size ∧ block = device.block offset ∧ after = device := by
  simp only [readBlock] at returned
  split at returned
  · rename_i inside
    cases returned
    exact ⟨inside, rfl, rfl⟩
  · cases returned

/-- What `read_sb` knows of the entry it returns. -/
structure Selected (device : Device) (secsize : Nat) (found : BootEntry) : Prop where
  size : found.secsize = secsize
  positive : 1 ≤ found.partIndex
  doff : found.doff = (device.block (found.partIndex * secsize)).be32 8 * (secsize / 512)
  entries : ∀ j, 1 ≤ j → j ≤ found.partIndex → device.Entry secsize j
  counted : found.partIndex = 1 ∨ found.partIndex ≤ (device.block (1 * secsize)).be32 4
  small : found.partIndex < 2 ^ 31

theorem readSbEntries_eq_ok {fuel part maxpart : Nat} (positive : 1 ≤ part)
    (before : ∀ j, 1 ≤ j → j < part → device.Entry secsize j)
    (counted : part = 1 ∨ maxpart = (device.block (1 * secsize)).be32 4)
    (returned : readSbEntries secsize fuel part maxpart device = .ok found after) :
    after = device ∧ Selected device secsize found := by
  induction fuel generalizing part maxpart with
  | zero => cases returned
  | succ fuel ih =>
      unfold readSbEntries at returned
      split at returned
      · rename_i inMap
        obtain ⟨mp, middle, run, rest⟩ := Prog.bind_eq_ok.mp returned
        obtain ⟨inside, rfl, rfl⟩ := readBlock_eq_ok run
        split at rest
        · cases rest
        rename_i signed
        have entries : ∀ j, 1 ≤ j → j < part + 1 → middle.Entry secsize j := by
          intro j lower upper
          by_cases last : j = part
          · subst last
            exact ⟨inside, not_not.mp signed⟩
          · exact before j lower (by omega)
        split at rest
        · cases rest
        split at rest
        · cases rest
          refine ⟨rfl, rfl, positive, rfl, fun j lower upper => entries j lower (by simp only at upper; omega), ?_, ?_⟩
          · rcases counted with first | count
            · exact .inl first
            · exact .inr (count ▸ inMap.2)
          · exact Nat.lt_of_le_of_lt inMap.2 inMap.1
        · refine ih (Nat.le_add_left 1 part) entries (.inr ?_) rest
          split
          · rename_i first
            rw [first]
          · rename_i later
            exact counted.resolve_left later
      · cases returned

theorem readSb_eq_ok {fuel : Nat} (returned : readSb host fuel device = .ok found after) :
    after = device ∧ 512 ≤ device.size ∧ (device.block 0).be16 0 = 0x4552 ∧
      Selected device ((device.block 0).be16 2) found := by
  unfold readSb at returned
  split at returned
  · obtain ⟨md, middle, run, rest⟩ := Prog.bind_eq_ok.mp returned
    obtain ⟨inside, rfl, rfl⟩ := readBlock_eq_ok run
    split at rest
    · cases rest
    rename_i signed
    obtain ⟨same, selected⟩ := readSbEntries_eq_ok (Nat.le_refl 1) (fun j _ _ => by omega) (.inl rfl) rest
    exact ⟨same, by simpa using inside, not_not.mp signed, selected⟩
  · cases returned

open Storage

theorem readSector_device {offset : Nat} (inside : offset + 512 ≤ device.size) (dev : Nat) (fs : Fs) :
    ∃ final, readSector device.machine dev offset fs = .ok (device.block offset) final := by
  have count : min 512 (device.size - offset) = 512 := by omega
  refine ⟨{ fs with calls := fs.calls + 1 }, ?_⟩
  have read : diskRead device.machine dev 512 offset fs =
      .ok { count := 512, bytes := device.block offset } { fs with calls := fs.calls + 1 } := by
    have some : ¬512 = 0 := by decide
    simp only [diskRead, if_neg some, Device.machine, count]
  unfold readSector
  rw [Prog.bind_run_ok read]
  rfl

/-- The loader reads on to the first entry it wants. -/
theorem readMacEntries_run {dev part target : Nat} (small : target < 2 ^ 31)
    (entries : ∀ j, 1 ≤ j → j ≤ target → device.Entry secsize j)
    (wanted : macEntryWanted part target (device.block (target * secsize)) = true)
    (unwanted : ∀ j, 1 ≤ j → j < target → macEntryWanted part j (device.block (j * secsize)) = false)
    (counted : target = 1 ∨ target ≤ (device.block (1 * secsize)).be32 4)
    {fuel i blocks : Nat} (positive : 1 ≤ i) (below : i ≤ target) (enough : target < fuel + i)
    (inMap : i ≤ blocks) (map : i = 1 ∨ blocks = (device.block (1 * secsize)).be32 4) (fs : Fs) :
    ∃ final, readMacEntries device.machine dev part secsize fuel i blocks fs =
      .ok (macExtent secsize (device.block (target * secsize))) final := by
  induction fuel generalizing i blocks fs with
  | zero => omega
  | succ fuel ih =>
      obtain ⟨inside, signed⟩ := entries i positive below
      obtain ⟨middle, run⟩ := readSector_device inside dev fs
      unfold readMacEntries
      rw [if_pos inMap, Prog.bind_run_ok run, if_neg (not_not.mpr signed)]
      by_cases last : i = target
      · subst last
        simp only [wanted, if_true]
        exact ⟨middle, rfl⟩
      · have next : (i + 1) % 2 ^ 32 = i + 1 := Nat.mod_eq_of_lt (by omega)
        have others := unwanted i positive (by omega)
        have more := counted.resolve_left (by omega)
        simp only [others, Bool.false_eq_true, if_false, next]
        by_cases first : i = 1
        · rw [if_pos first]
          subst first
          exact ih (by omega) (by omega) (by omega) (by omega) (.inr rfl) middle
        · rw [if_neg first]
          have count := map.resolve_left first
          exact ih (by omega) (by omega) (by omega) (by omega) (.inr count) middle

theorem readMacPartition_run {dev part target : Nat} (room : 512 ≤ device.size)
    (mac : (device.block 0).be16 0 = 0x4552) (size : (device.block 0).be16 2 = secsize)
    (small : target < 2 ^ 31) (positive : 1 ≤ target)
    (entries : ∀ j, 1 ≤ j → j ≤ target → device.Entry secsize j)
    (wanted : macEntryWanted part target (device.block (target * secsize)) = true)
    (unwanted : ∀ j, 1 ≤ j → j < target → macEntryWanted part j (device.block (j * secsize)) = false)
    (counted : target = 1 ∨ target ≤ (device.block (1 * secsize)).be32 4)
    {fuel : Nat} (enough : target ≤ fuel) (fs : Fs) :
    ∃ final, readMacPartition device.machine fuel dev part fs =
      .ok (macExtent secsize (device.block (target * secsize))) final := by
  obtain ⟨middle, run⟩ := readSector_device (by simpa using room) dev fs
  unfold readMacPartition
  rw [Prog.bind_run_ok run, if_neg (not_not.mpr mac), size]
  exact readMacEntries_run small entries wanted unwanted counted (Nat.le_refl 1) positive (by omega)
    (Nat.le_refl 1) (.inl rfl) middle

end IQuik.Installer
