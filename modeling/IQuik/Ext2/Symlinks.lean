import Mathlib.Data.List.GetD
import Mathlib.Data.List.TakeWhile
import IQuik.Ext2.Ranges
import IQuik.Ext2.Readable
import IQuik.Ext2.Repeats
import IQuik.Ext2.BlockMap

namespace IQuik.Ext2

open IQuik.Data IQuik.Program IQuik.Storage

/-! # The targets of symlinks -/

variable {machine : Machine} {image : Nat → Image} {part : Part} {node : Node} {fs : Fs}

/-- `strncpy` to the front of a buffer: it stops behind the NUL, or after `count` bytes. -/
def strncpy (buffer : Buffer) (source : Str) (count : Nat) : Buffer :=
  buffer.store 0 (min count ((source.takeWhile (· ≠ 0)).length + 1)) fun index => source.getD index 0

/-- `ext2fs_read_symlink` with all that it stores in its allocation, and the size
of the symlink. -/
def ext2fsReadSymlinkBytes (machine : Machine) (node : Node) : FsProg (Nat × Buffer) := do
  let inode ← nodeInode machine node
  malloc machine ((inode.size + 1) % 2 ^ 32)
  let symlink ←
    if inode.size ≤ 60 then pure (strncpy .blank inode.symlink inode.size)
    else readFresh machine { node with inode } 0 inode.size
  pure (inode.size, symlink.store inode.size 1 fun _ => 0)

/-- The bytes of a string, in memory. -/
theorem bufferString_eq {buffer : Buffer} {index width : Nat} {string : Str} (plain : 0 ∉ string)
    (fits : string.length ≤ width)
    (bytes : ∀ k, k < width → k ≤ string.length → buffer (index + k) = some (string.getD k 0)) :
    bufferString buffer index width = some string := by
  induction width generalizing index string with
  | zero =>
      obtain rfl := List.length_eq_zero_iff.mp (Nat.le_zero.mp fits)
      rfl
  | succ width ih =>
      have first := bytes 0 (Nat.zero_lt_succ _) (Nat.zero_le _)
      rw [Nat.add_zero] at first
      unfold bufferString
      cases string with
      | nil =>
          rw [first]
          rfl
      | cons byte rest =>
          obtain ⟨some, plain⟩ := not_or.mp (fun found => plain (List.mem_cons.mpr found))
          have next : bufferString buffer (index + 1) width = Option.some rest := by
            refine ih plain (Nat.le_of_succ_le_succ fits) fun k below inside => ?_
            rw [Nat.add_assoc, Nat.add_comm 1, bytes (k + 1) (Nat.succ_lt_succ below) (Nat.succ_le_succ inside)]
            rfl
          rw [first, next]
          simp [Ne.symm some]

theorem bufferString_congr {left right : Buffer} {index width : Nat}
    (same : ∀ k, k < width → left (index + k) = right (index + k)) :
    bufferString left index width = bufferString right index width := by
  induction width generalizing index with
  | zero => rfl
  | succ width ih =>
      have first := same 0 (Nat.zero_lt_succ _)
      have rest : bufferString left (index + 1) width = bufferString right (index + 1) width :=
        ih fun k below => by
          rw [Nat.add_assoc, Nat.add_comm 1]
          exact same (k + 1) (Nat.succ_lt_succ below)
      unfold bufferString
      rw [Nat.add_zero] at first
      rw [first, rest]

theorem takeWhile_take (source : Str) (count : Nat) :
    (source.take count).takeWhile (· ≠ 0) = (source.takeWhile (· ≠ 0)).take count := by
  induction source generalizing count with
  | nil => simp
  | cons byte rest ih =>
      cases count with
      | zero => rfl
      | succ count =>
          by_cases zero : byte = 0
          · simp [zero]
          · simpa [zero] using ih count

theorem getD_take {source : Str} {count index : Nat} (below : index < count) :
    (source.take count).getD index 0 = source.getD index 0 := by
  rw [List.getD_eq_getElem?_getD, List.getElem?_take_of_lt below, ← List.getD_eq_getElem?_getD]

theorem getD_takeWhile {source : Str} {index : Nat} (inside : index < (source.takeWhile (· ≠ 0)).length) :
    (source.takeWhile (· ≠ 0)).getD index 0 = source.getD index 0 := by
  rw [List.getD_eq_getElem _ _ inside, List.getD_eq_getElem _ _
    (inside.trans_le (List.takeWhile_prefix _).length_le), (List.takeWhile_prefix _).getElem inside]

/-- A string ends at its first NUL, or at the end of the bytes there are. -/
theorem getD_takeWhile_length (source : Str) : source.getD (source.takeWhile (· ≠ 0)).length 0 = 0 := by
  induction source with
  | nil => rfl
  | cons byte rest ih =>
      by_cases zero : byte = 0
      · simp [zero]
      · simpa [zero] using ih

/-- What the copy has of the string in the first `count` bytes, and its NUL. -/
theorem strncpy_string {buffer : Buffer} {source : Str} {count index : Nat} (below : index < count)
    (inside : index ≤ ((source.take count).takeWhile (· ≠ 0)).length) :
    strncpy buffer source count index = some (((source.take count).takeWhile (· ≠ 0)).getD index 0) := by
  rw [takeWhile_take] at inside ⊢
  rw [List.length_take] at inside
  rw [strncpy, Buffer.store_inside (Nat.zero_le _) (by omega), Nat.sub_zero]
  refine congrArg some ?_
  rcases Nat.lt_or_ge index (source.takeWhile (· ≠ 0)).length with within | behind
  · rw [getD_take below, getD_takeWhile within]
  · obtain rfl : index = (source.takeWhile (· ≠ 0)).length := by omega
    rw [getD_takeWhile_length, List.getD_eq_default _ _ (by rw [List.length_take]; omega)]

/-- The string that the caller finds in the allocation. -/
theorem readSymlink_eq (machine : Machine) (node : Node) :
    ext2fsReadSymlink machine node =
      ext2fsReadSymlinkBytes machine node >>= fun read => Prog.defined (bufferString read.2 0 read.1) := by
  unfold ext2fsReadSymlink ext2fsReadSymlinkBytes
  rw [Prog.bind_assoc]
  congr 1
  funext inode
  rw [Prog.bind_assoc]
  congr 1
  funext _
  split
  · have string : bufferString ((strncpy .blank inode.symlink inode.size).store inode.size 1 fun _ => 0) 0
        inode.size = some ((inode.symlink.take inode.size).takeWhile (· ≠ 0)) := by
      refine bufferString_eq (fun zero => ?_) ?_ fun k below inside => ?_
      · have some := List.mem_takeWhile_imp zero
        simp at some
      · exact (List.takeWhile_prefix _).length_le.trans (List.length_take_le _ _)
      · rw [Nat.zero_add, Buffer.store_outside (.inl below)]
        exact strncpy_string below inside
    rw [Prog.pure_bind, Prog.pure_bind, string]
    rfl
  · rw [Prog.bind_assoc]
    congr 1
    funext buffer
    rw [Prog.pure_bind]
    refine congrArg Prog.defined (bufferString_congr fun k below => ?_)
    rw [Nat.zero_add]
    change buffer k = buffer.store inode.size 1 (fun _ => 0) k
    rw [Buffer.store_outside (.inl below)]

/-- A symlink with a target, the way ext2 stores it: in the inode with its NUL
when it fits there, or else as the contents of a file. -/
structure StoredTarget (image : Nat → Image) (part : Part) (node : Node) (inode : Inode) (target : Str) :
    Prop where
  size : inode.size = target.length
  inline : target.length ≤ 59 → inode.raw.list 40 (target.length + 1) = target ++ [0]
  blocks : 59 < target.length → Readable image part { node with inode } ∧
    ∀ index, index < target.length → fileByte image part { node with inode } index = target.getD index 0

theorem Image.list_take (image : Image) (offset count limit : Nat) :
    (image.list offset count).take limit = image.list offset (min limit count) := by
  induction count generalizing offset limit with
  | zero => simp [Image.list]
  | succ count ih =>
      cases limit with
      | zero => simp [Image.list]
      | succ limit => simp [Image.list, ih, Nat.succ_min_succ]

theorem takeWhile_plain {string : Str} (plain : 0 ∉ string) : string.takeWhile (· ≠ 0) = string := by
  refine List.takeWhile_eq_self_iff.mpr fun byte found => ?_
  simpa using fun zero : byte = 0 => plain (zero ▸ found)

theorem getD_ne_zero {string : Str} (plain : 0 ∉ string) {index : Nat} (inside : index < string.length) :
    string.getD index 0 ≠ 0 := by
  rw [List.getD_eq_getElem _ _ inside]
  exact fun zero => plain (zero ▸ List.getElem_mem inside)

/-- A copy of as many bytes as a string has is that string only where the source
is. -/
theorem strncpy_eq_iff {source target : Str} (plain : 0 ∉ target) (length : source.length = target.length) :
    (∀ index, index < target.length →
        strncpy .blank source target.length index = some (target.getD index 0)) ↔ source = target := by
  constructor
  · intro same
    refine List.ext_getElem length fun index left right => ?_
    have byte := same index right
    unfold strncpy at byte
    by_cases copied : index < min target.length ((source.takeWhile (· ≠ 0)).length + 1)
    · rw [Buffer.store_inside (Nat.zero_le _) (by omega), Nat.sub_zero] at byte
      have equal := Option.some.inj byte
      rwa [List.getD_eq_getElem _ _ left, List.getD_eq_getElem _ _ right] at equal
    · rw [Buffer.store_outside (.inr (by omega))] at byte
      cases byte
  · rintro rfl index inside
    rw [strncpy_string inside (by rw [List.take_length, takeWhile_plain plain]; exact Nat.le_of_lt inside),
      List.take_length, takeWhile_plain plain]

/-- The block area of an inode that holds a target. -/
theorem StoredTarget.symlink {inode : Inode} {target : Str} (stored : StoredTarget image part node inode target)
    (short : target.length ≤ 59) : inode.symlink.take target.length = target := by
  have area := congrArg (List.take target.length) (stored.inline short)
  rw [Image.list_take, List.take_left' rfl, Nat.min_eq_left (Nat.le_succ _)] at area
  rw [Inode.symlink, Image.list_take, Nat.min_eq_left (by omega), area]

/-- A file without NULs has no holes. -/
theorem solid_of_plain {target : Str} (readable : Readable image part node)
    (size : node.inode.size = target.length) (plain : 0 ∉ target)
    (bytes : ∀ index, index < target.length → fileByte image part node index = target.getD index 0) :
    SolidRange image part node 0 target.length where
  inside := by omega
  bound := by
    have bound := readable.bound
    omega
  blocks := by
    intro i _ upper
    rw [Nat.zero_add] at upper
    have block := readable.blocks i (by omega)
    refine ⟨fun hole => ?_, block.plain.block, fun lower upper => (block.plain.single lower upper).2,
      fun lower => ⟨(block.plain.double lower).1.2, (block.plain.double lower).2.2⟩⟩
    have first := bytes _ upper
    rw [← Nat.add_zero (i * node.data.blockBytes), fileByte_eq node.data.blockBytes_pos, if_pos hole] at first
    exact getD_ne_zero plain upper first.symm

/-- The inode of a node is read without harm to the caches. -/
theorem nodeInode_warm (fixed : machine.Fixed image) (reliable : machine.Reliable) (warm : Warm image fs fs)
    {inode : Inode} {after : Fs} (returned : nodeInode machine node fs = .ok inode after) :
    Warm image after after ∧ after.part = fs.part := by
  have repeats : Repeats image fs.part EqualSizes False (fun _ => True) (nodeInode machine node) :=
    nodeInode_repeats fixed (.inr reliable) EqualSizes.stable EqualSizes.sizes node
  obtain ⟨middle, same, later, -⟩ := repeats.later_ok (nodeInode_near node) (.refl warm) returned
  rw [returned] at same
  cases same
  exact ⟨later.warmRight, later.openRight⟩

/-- A string that was stored whole, with a NUL behind it. -/
def HoldsString (buffer : Buffer) (string : Str) : Prop :=
  ∀ index, buffer index = if index ≤ string.length then some (string.getD index 0) else none

theorem holdsString_iff {buffer : Buffer} {string : Str}
    (unset : ∀ index, string.length < index → buffer index = none) :
    HoldsString (buffer.store string.length 1 fun _ => 0) string ↔
      ∀ index, index < string.length → buffer index = some (string.getD index 0) := by
  constructor
  · intro holds index inside
    have byte := holds index
    rwa [Buffer.store_outside (.inl inside), if_pos (Nat.le_of_lt inside)] at byte
  · intro same index
    rcases Nat.lt_trichotomy index string.length with inside | rfl | behind
    · rw [Buffer.store_outside (.inl inside), same index inside, if_pos (Nat.le_of_lt inside)]
    · rw [Buffer.store_inside (Nat.le_refl _) (Nat.lt_succ_self _), if_pos (Nat.le_refl _),
        List.getD_eq_default _ _ (Nat.le_refl _)]
    · rw [Buffer.store_outside (.inr behind), unset index behind, if_neg (by omega)]

/-- A target is read back, with a NUL behind it and nothing else, unless it fills
the block area without its NUL. -/
theorem readSymlink_target_iff (fixed : machine.Fixed image) (reliable : machine.Reliable)
    (warm : Warm image fs fs) {target : Str} {inode : Inode} {middle : Fs} (plain : 0 ∉ target)
    (read : nodeInode machine node fs = .ok inode middle)
    (stored : StoredTarget image fs.part node inode target) :
    ∃ symlink after, ext2fsReadSymlinkBytes machine node fs = .ok (target.length, symlink) after ∧
      (HoldsString symlink target ↔ target.length ≠ 60 ∨ inode.symlink = target) := by
  obtain ⟨warm', part⟩ := nodeInode_warm fixed reliable warm read
  have granted : malloc machine ((inode.size + 1) % 2 ^ 32) middle =
      .ok () { middle with mallocs := middle.mallocs + 1 } := if_pos (reliable.granted _ _)
  unfold ext2fsReadSymlinkBytes
  rw [Prog.bind_run_ok read, Prog.bind_run_ok granted, stored.size]
  by_cases inline : target.length ≤ 60
  · rw [if_pos inline]
    refine ⟨_, _, rfl, ?_⟩
    have unset : ∀ index, target.length < index → strncpy .blank inode.symlink target.length index = none :=
      fun index behind => Buffer.store_outside (.inr (by omega))
    rw [holdsString_iff unset]
    by_cases fits : target.length ≤ 59
    · have other : target.length ≠ 60 := by omega
      simp only [ne_eq, other, not_false_eq_true, true_or, iff_true]
      intro index inside
      have string : (inode.symlink.take target.length).takeWhile (· ≠ 0) = target := by
        rw [stored.symlink fits, takeWhile_plain plain]
      rw [strncpy_string inside (by rw [string]; exact Nat.le_of_lt inside), string]
    · have same : target.length = 60 := by omega
      have area : inode.symlink.length = target.length := by rw [same, Inode.symlink, Image.list_length]
      simp only [same, ne_eq, not_true_eq_false, false_or]
      rw [← same]
      exact strncpy_eq_iff plain area
  · have other : target.length ≠ 60 := by omega
    obtain ⟨readable, contents⟩ := stored.blocks (by omega)
    have ready : Warm image { middle with mallocs := middle.mallocs + 1 }
        { middle with mallocs := middle.mallocs + 1 } :=
      ((warm'.atSlot .indir1).mallocs _).warm.settled
    have solid := solid_of_plain readable stored.size plain contents
    rw [← part] at readable solid contents
    obtain ⟨buffer, after, run, -, walk⟩ := readFresh_run fixed reliable ready readable
      (Nat.le_of_eq ((Nat.zero_add _).trans stored.size.symm))
    rw [if_neg inline, Prog.bind_run_ok run]
    refine ⟨_, _, rfl, ?_⟩
    have bytes : ∀ index, buffer index = _ := walkFile_exact solid walk
    simp only [ne_eq, other, not_false_eq_true, true_or, iff_true]
    refine (holdsString_iff fun index behind => ?_).mpr fun index inside => ?_
    · rw [bytes, if_neg (by omega)]
      rfl
    · rw [bytes, if_pos inside, Nat.zero_add, contents index inside]

/-- A symlink of `size` bytes, with `area` in its inode. -/
def linkNode (size : UInt8) (area : List UInt8) : Node :=
  { zeroNode with inode := { raw := .ofRuns [(4, [size]), (40, area)] } }

/-- A target of `length` bytes in block 5 of the partition. -/
def targetDisk (length : Nat) : Image := .ofRuns [(32768 + 5 * 1024, List.replicate length 97)]

/-- The target is what block 5 holds. -/
theorem targetDisk_stored {size : UInt8} {length : Nat} (long : 59 < length)
    (sized : (linkNode size [5]).inode.size = length)
    (readable : Readable (fun _ => targetDisk length) zeroDisk.part (linkNode size [5]))
    (bytes : (List.range length).all (fun index =>
      fileByte (fun _ => targetDisk length) zeroDisk.part (linkNode size [5]) index
        == (List.replicate length 97).getD index 0) = true) :
    StoredTarget (fun _ => targetDisk length) zeroDisk.part (linkNode size [5]) (linkNode size [5]).inode
      (List.replicate length 97) where
  size := sized.trans (List.length_replicate ..).symm
  inline short := by
    rw [List.length_replicate] at short
    omega
  blocks _ := by
    refine ⟨readable, fun index inside => ?_⟩
    rw [List.length_replicate] at inside
    exact eq_of_beq (List.all_eq_true.mp bytes index (List.mem_range.mpr inside))

theorem readSymlink_target_sample : ∃ symlink after,
    ext2fsReadSymlinkBytes (diskMachine (targetDisk 64)) (linkNode 64 [5]) zeroDisk = .ok (64, symlink) after ∧
    HoldsString symlink (List.replicate 64 97) := by
  have steady := diskMachine_steady (targetDisk 64)
  have readable : Readable (fun _ => targetDisk 64) zeroDisk.part (linkNode 64 [5]) :=
    oneBlock_readable _ (by decide +kernel) (by decide +kernel) (by decide +kernel)
  have stored := targetDisk_stored (by decide) (by decide +kernel) readable (by decide +kernel)
  obtain ⟨symlink, after, run, holds⟩ := readSymlink_target_iff steady.fixed steady.reliable
    (zeroDisk_warm fun _ => targetDisk 64) (by decide) (rfl : nodeInode _ _ zeroDisk = _) stored
  exact ⟨symlink, after, run, holds.mpr (.inl (by decide))⟩

/-- A target of 60 bytes is not in the inode. -/
theorem readSymlink_blocks :
    ¬∀ (machine : Machine) (image : Nat → Image) (node : Node) (fs middle : Fs) (target : Str) (inode : Inode),
      machine.Fixed image → machine.Reliable → Warm image fs fs → 1 ≤ target.length → target.length < 4096 →
      0 ∉ target → nodeInode machine node fs = .ok inode middle →
      StoredTarget image fs.part node inode target →
      ∃ symlink after, ext2fsReadSymlinkBytes machine node fs = .ok (target.length, symlink) after ∧
        HoldsString symlink target := by
  intro reads
  have steady := diskMachine_steady (targetDisk 60)
  have readable : Readable (fun _ => targetDisk 60) zeroDisk.part (linkNode 60 [5]) :=
    oneBlock_readable _ (by decide +kernel) (by decide +kernel) (by decide +kernel)
  have stored := targetDisk_stored (by decide) (by decide +kernel) readable (by decide +kernel)
  obtain ⟨symlink, after, run, holds⟩ := reads _ _ _ _ _ _ _ steady.fixed steady.reliable (zeroDisk_warm _)
    (by decide) (by decide) (by decide) (rfl : nodeInode _ _ zeroDisk = _) stored
  have first : ((ext2fsReadSymlinkBytes (diskMachine (targetDisk 60)) (linkNode 60 [5]) zeroDisk).value?.map
      fun read => read.2 0) = some (some 5) := by decide +kernel
  rw [run] at first
  have byte : symlink 0 = some 5 := Option.some.inj first
  rw [holds 0] at byte
  exact absurd byte (by decide)

end IQuik.Ext2
