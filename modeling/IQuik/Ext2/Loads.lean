import IQuik.Ext2.Content
import IQuik.Ext2.Opening

namespace IQuik.Ext2

open IQuik.Data IQuik.Program IQuik.Storage

/-! # What `file_load` stores -/

variable {machine : Machine} {image : Nat → Image} {fuel : Nat}

/-- Once the partition that a call names is open, the caches hold blocks of it
or nothing. -/
def CachesWarm (machine : Machine) (image : Nat → Image) (fuel : Nat) (path : Path) (fs : Fs) :
    Prop :=
  ∀ after, partOpen machine fuel path.device path.part fs = .ok () after → Warm image after after

/-- The rest of `file_len`, once the partition is open. -/
def mountOpen (machine : Machine) (fuel : Nat) (filename : Str) : FsProg Nat := do
  ext2fsMount machine
  ext2fsOpen machine fuel filename

theorem CachesWarm.of_empty {path : Path} {fs : Fs} (indir1 : fs.indir1 = .empty)
    (indir2 : fs.indir2 = .empty) : CachesWarm machine image fuel path fs := by
  intro after returned
  obtain ⟨-, -, caches⟩ := partOpen_eq_ok returned
  refine ⟨.refl _, ?_, ?_⟩
  · rw [caches.1, indir1]
    exact .unallocated 0
  · rw [caches.2, indir2]
    exact .unallocated 0

theorem fileLen_unmounted {fs : Fs} (unmounted : fs.part.mounted = false) (path : Path) :
    fileLen machine fuel path fs =
      (partOpen machine fuel path.device path.part >>= fun _ => mountOpen machine fuel path.path)
        fs := by
  unfold fileLen mountOpen
  rw [← Prog.bind_assoc]
  exact Prog.bind_run_congr (openExt2_unmounted unmounted fuel path.device path.part)

theorem fileLoad_eq (path : Path) :
    fileLoad machine fuel path =
      (Prog.onFirst (fileLen machine fuel path) >>= fun size => ext2fsRead machine size) := rfl

theorem mountOpen_repeats {part : Part} (fixed : machine.Fixed image) (fuel : Nat) (filename : Str) :
    Prog.Agrees True True (PairedOpen image part)
      (Paired image part (Rooted (Usable True) (SameFile (Usable True)))) (PairedOpen image part) (fun _ => True)
      (mountOpen machine fuel filename) (mountOpen machine fuel filename) :=
  .bind (mount_repeats fixed (.inl trivial) (.inl trivial)) fun _ _ =>
    open_repeats fixed (.inl trivial) fuel filename

/-- `ext2fs_open` leaves the file open whose size it returns. -/
theorem ext2fsOpen_eq_ok {filename : Str} {fs after : Fs} {size : Nat}
    (opened : ext2fsOpen machine fuel filename fs = .ok size after) :
    ∃ node, after.file = some node ∧ node.inode.size = size := by
  unfold ext2fsOpen at opened
  rw [Prog.view_bind] at opened
  cases root : fs.root with
  | none => rw [root] at opened; cases opened
  | some root' =>
      rw [root] at opened
      obtain ⟨_, _, _, opened⟩ := Prog.bind_eq_ok.mp opened
      obtain ⟨found, _, _, opened⟩ := Prog.bind_eq_ok.mp opened
      obtain ⟨inode, _, _, opened⟩ := Prog.bind_eq_ok.mp opened
      cases opened
      exact ⟨_, rfl, rfl⟩

/-- What is known once `file_len` has succeeded. -/
structure FileOpen (image : Nat → Image) (path : Path) (size : Nat) (node : Node) (fs : Fs) : Prop where
  opened : OpenedAs path.device path.part fs.part
  unmounted : fs.part.mounted = false
  warm : Warm image fs fs
  file : fs.file = some node
  size : node.inode.size = size

theorem fileLen_eq_ok (fixed : machine.Fixed image) {path : Path} {fs after : Fs} {size : Nat}
    (unmounted : fs.part.mounted = false) (warm : CachesWarm machine image fuel path fs)
    (returned : fileLen machine fuel path fs = .ok size after) :
    ∃ node, FileOpen image path size node after := by
  rw [fileLen_unmounted unmounted] at returned
  obtain ⟨_, middle, opens, rest⟩ := Prog.bind_eq_ok.mp returned
  obtain ⟨opened, still, -⟩ := partOpen_eq_ok opens
  have paired : PairedOpen image middle.part middle middle :=
    ⟨rfl, rfl, warm middle opens, warm middle opens, trivial⟩
  obtain ⟨-, states⟩ := (mountOpen_repeats fixed fuel path.path).self paired rest
  obtain ⟨_, _, -, opensFile⟩ := Prog.bind_eq_ok.mp rest
  obtain ⟨node, file, nodeSize⟩ := ext2fsOpen_eq_ok opensFile
  exact ⟨node, states.openLeft ▸ opened, states.openLeft ▸ still unmounted, states.warmLeft, file,
    nodeSize⟩

theorem FileOpen.asked {path : Path} {size : Nat} {node : Node} {fs : Fs} (known : FileOpen image path size node fs)
    (mallocs : Nat) : FileOpen image path size node { fs with mallocs := mallocs } where
  opened := known.opened
  unmounted := known.unmounted
  warm := ⟨.refl _, known.warm.indir1, known.warm.indir2⟩
  file := known.file
  size := known.size

/-- A second `file_len` of the same path opens the same file, also where more was asked of the
heap in between. -/
theorem fileLen_again (fixed : machine.Fixed image) {path : Path} {fs opened again : Fs}
    {len size : Nat} (unmounted : fs.part.mounted = false)
    (warm : CachesWarm machine image fuel path fs)
    (first : fileLen machine fuel path fs = .ok len opened) (mallocs : Nat)
    (second : fileLen machine fuel path { opened with mallocs := mallocs } = .ok size again) {node : Node}
    (known : FileOpen image path len node opened) :
    size = len ∧ again.part = opened.part ∧ FileOpen image path len node again := by
  have asked := known.asked mallocs
  rw [fileLen_unmounted unmounted] at first
  rw [fileLen_unmounted asked.unmounted] at second
  obtain ⟨_, middle, opens, first⟩ := Prog.bind_eq_ok.mp first
  obtain ⟨_, middle', reopens, second⟩ := Prog.bind_eq_ok.mp second
  obtain rfl : { opened with mallocs := mallocs } = middle' := by
    rcases partOpen_again machine asked.opened fuel with run | run <;>
      rw [run] at reopens <;> cases reopens
    rfl
  have warm' := warm middle opens
  have same : middle.part = opened.part := by
    have paired : PairedOpen image middle.part middle middle := ⟨rfl, rfl, warm', warm', trivial⟩
    exact ((mountOpen_repeats fixed fuel path.path).self paired first).2.openLeft.symm
  have alike := mountOpen_repeats fixed fuel path.path middle { opened with mallocs := mallocs }
    ⟨rfl, same.symm, warm', asked.warm, trivial⟩
  rw [first, second] at alike
  obtain ⟨rfl, -, paired⟩ := alike
  have part : again.part = opened.part := paired.openRight.trans same
  exact ⟨rfl, part, ⟨part ▸ known.opened, part ▸ known.unmounted, paired.warmRight,
    paired.keep.files.1.symm.trans known.file, known.size⟩⟩

theorem ext2fsRead_file {fs : Fs} {root : Ext2Data} {node : Node} (mounted : fs.root = some root)
    (opened : fs.file = some node) (len : Nat) (buffer : Buffer) :
    ext2fsRead machine len (fs, buffer) = ext2fsReadFile machine node 0 len (fs, buffer) := by
  unfold ext2fsRead
  have globals : Prog.onFirst (Prog.view fun fs : Fs => (fs.root, fs.file)) (fs, buffer) =
      (.ok (some root, some node) (fs, buffer) : Outcome QuikErr (Fs × Buffer) _) := by
    rw [← mounted, ← opened]
    rfl
  rw [Prog.bind_run_ok globals]

theorem ext2fsRead_eq_ok {fs : Fs} {len : Nat} {buffer : Buffer} {after : Fs × Buffer} {node : Node}
    (opened : fs.file = some node) (read : ext2fsRead machine len (fs, buffer) = .ok () after) :
    ext2fsReadFile machine node 0 len (fs, buffer) = .ok () after := by
  cases mounted : fs.root with
  | none =>
      unfold ext2fsRead at read
      have globals : Prog.onFirst (Prog.view fun fs : Fs => (fs.root, fs.file)) (fs, buffer) =
          (.ok (none, fs.file) (fs, buffer) : Outcome QuikErr (Fs × Buffer) _) := by
        rw [← mounted]
        rfl
      rw [Prog.bind_run_ok globals] at read
      cases read
  | some root => rwa [ext2fsRead_file mounted opened] at read

/-- The size of the file and the size of a block do not wrap around in their
sum, and all blocks of the file are plain. -/
structure PlainFile (image : Nat → Image) (part : Part) (node : Node) : Prop where
  bound : node.inode.size + node.data.blockBytes ≤ 2 ^ 32
  plain : PlainRange image part node 0 node.inode.size

/-- A load that succeeds has stored the file that it leaves open, if the file is
plain. If the sum of the sizes wraps around, it has stored nothing. -/
theorem load_contents (fixed : machine.Fixed image) {path : Path} {fs : Fs} {buffer : Buffer}
    {after : Fs × Buffer} (unmounted : fs.part.mounted = false)
    (warm : CachesWarm machine image fuel path fs)
    (loaded : fileLoad machine fuel path (fs, buffer) = .ok () after) :
    ∃ node, after.1.file = some node ∧
      (PlainFile image after.1.part node →
        ∀ j, j < node.inode.size → after.2 j = some (fileByte image after.1.part node j)) ∧
      (2 ^ 32 < node.inode.size + node.data.blockBytes → after.2 = buffer) := by
  rw [fileLoad_eq] at loaded
  obtain ⟨size, ⟨opened, buffer'⟩, opens, read⟩ := Prog.bind_eq_ok.mp loaded
  obtain ⟨opens, same⟩ := Prog.onFirst_eq_ok.mp opens
  obtain ⟨node, known⟩ := fileLen_eq_ok fixed unmounted warm opens
  have agree := readFile_agrees fixed (.inl trivial) node (.inl trivial) 0 size
    (opened, buffer') ((), buffer') ⟨known.warm, rfl⟩
  rw [ext2fsRead_eq_ok known.file read] at agree
  obtain ⟨stored, walk, -, states, bytes⟩ := agree.of_ok
  obtain rfl := known.size
  refine ⟨node, states.near.file.trans known.file, fun plain j below => ?_, fun wraps => ?_⟩
  · rw [states.near.part] at plain ⊢
    have holds := walkFile_holds
      (by rw [Nat.min_self, Nat.zero_add]; exact plain.bound)
      (by rw [Nat.min_self]; exact plain.plain) walk
    rw [Nat.min_self] at holds
    have byte := holds j below
    beta_reduce at byte
    rwa [Nat.zero_add, ← bytes] at byte
  · rw [bytes, walkFile_wraps wraps walk]
    exact same

/-! Sample disks have two partitions of 32 KiB, with volumes of 1 KiB blocks. The
inodes of a volume are in block 3, and its root directory is in block 4. -/

def sampleVolume (base : Nat) (directory : List UInt8) (inodes blocks : List (Nat × List UInt8)) :
    List (Nat × List UInt8) :=
  [(base + 1024 + 20, [1, 0, 0, 0, 0, 0, 0, 0]), (base + 1024 + 40, [8, 0, 0, 0]),
   (base + 1024 + 56, [0x53, 0xEF]), (base + 2048 + 8, [3, 0, 0, 0]),
   (base + 3072 + 128, [0, 0x40, 0, 0, directory.length.toUInt8, 0, 0, 0]),
   (base + 3072 + 168, [4, 0, 0, 0]), (base + 4096, directory)] ++
  inodes.map (fun (offset, bytes) => (base + 3072 + offset, bytes)) ++
  blocks.map fun (block, bytes) => (base + 1024 * block, bytes)

def sampleDisk (first second : List (Nat × List UInt8)) : Image := .ofRuns <|
  [(0, [0x45, 0x52, 2, 0]),
   (512, [0x50, 0x4d, 0, 0, 0, 0, 0, 2, 0, 0, 0, 64, 0, 0, 0, 64]),
   (1024, [0x50, 0x4d, 0, 0, 0, 0, 0, 2, 0, 0, 0, 128, 0, 0, 0, 64])] ++ first ++ second

/-- A root directory with one file, `f`, which has inode 3. -/
def oneFile : List UInt8 := [3, 0, 0, 0, 12, 0, 1, 1, 102, 0, 0, 0]

/-- A firmware with one disk that never fails. -/
def diskMachine (disk : Image) : Machine where
  openDevice _ _ := some 1
  read _ _ offset nbytes := { count := nbytes, bytes := fun index => disk (offset + index) }
  grants _ _ := true
  nwFullDisk := false

theorem diskMachine_steady (disk : Image) : Steady (diskMachine disk) fun _ => disk where
  fixed := ⟨fun _ _ _ _ _ => rfl⟩
  reliable := ⟨fun _ _ _ _ => rfl, fun _ _ => rfl⟩
  opens _ _ _ := rfl

def sampleFile (part : Nat) : Path := { device := str "hd", part, path := str "/f" }

/-- The file is one byte in block 6. -/
def shortFile : Image :=
  sampleDisk (sampleVolume 32768 oneFile [(256, [0, 0x80, 0, 0, 1]), (296, [6])] [(6, [60])]) []

/-- The file has a single-indirect block of bytes, and its inode has no pointer
to the block of pointers. Block 0 of the volume starts with a 6. -/
def fileWithoutPointers : Image :=
  sampleDisk (sampleVolume 32768 oneFile [(256, [0, 0x80, 0, 0, 1, 0x30])] [(0, [6]), (6, [60])]) []

/-- What the first file stored and what its tree says, at one index. -/
def storedAndTree (disk : Image) (index : Nat) : Option (Option UInt8 × UInt8) :=
  (fileLoad (diskMachine disk) 20 (sampleFile 1) (.startUp, .blank)).success?.bind fun after =>
    after.1.file.map fun node =>
      (after.2 index, fileByte (fun _ => disk) after.1.part node index)

/-- Zeros that the file has for lack of pointers are read from somewhere else. -/
theorem load_not_contents :
    ¬∀ (machine : Machine) (image : Nat → Image) (fuel : Nat), Steady machine image →
      ∀ (path : Path) (after : Fs × Buffer),
        fileLoad machine fuel path (.startUp, .blank) = .ok () after →
        ∃ node, after.1.file = some node ∧ ∀ j, j < node.inode.size →
          after.2 j = some (fileByte image after.1.part node j) := by
  intro contents
  have bytes : storedAndTree fileWithoutPointers 12288 = some (some 60, 0) := by decide +kernel
  have size : ((fileLoad (diskMachine fileWithoutPointers) 20 (sampleFile 1)
      (.startUp, .blank)).success?.bind fun after => after.1.file.map fun node =>
        node.inode.size) = some 12289 := by decide +kernel
  obtain ⟨after, loads, bytes⟩ := Option.bind_eq_some_iff.mp bytes
  obtain ⟨_, loaded⟩ := Outcome.success?_eq_some.mp loads
  obtain ⟨node, file, holds⟩ := contents (diskMachine fileWithoutPointers)
    (fun _ => fileWithoutPointers) 20 (diskMachine_steady _) (sampleFile 1) after loaded
  rw [loads, Option.bind_some, file, Option.map_some, Option.some.injEq] at size
  rw [file, Option.map_some, Option.some.injEq, Prod.mk.injEq, holds 12288 (by omega)] at bytes
  rw [bytes.2] at bytes
  exact absurd bytes.1 (by decide)

/-- The file is 12 blocks of zeros and one byte in block 6, which block 5 points to. -/
def indirectFile : Image :=
  sampleDisk (sampleVolume 32768 oneFile [(256, [0, 0x80, 0, 0, 1, 0x30]), (344, [5])] [(5, [6]), (6, [60])]) []

/-- What has to be known of the file, to see that its blocks are plain. -/
def indirectFacts (after : Fs × Buffer) (node : Node) : Bool :=
  node.inode.size == 12289 && node.data.blockBytes == 1024 && node.data.log2Ext2BlockSize == 1 &&
    node.inode.indirBlock == 5 && fileByte (fun _ => indirectFile) after.1.part node 12288 == 60 &&
    (List.range 13).all fun i => treeBlock (fun _ => indirectFile) after.1.part node i < 2 ^ 31

/-- The last byte of the file is found through its block of pointers. -/
theorem load_contents_sample : ∃ after node,
    fileLoad (diskMachine indirectFile) 20 (sampleFile 1) (.startUp, .blank) = .ok () after ∧
      after.1.file = some node ∧ node.inode.size = 12289 ∧
      (∀ j, j < 12289 → after.2 j = some (fileByte (fun _ => indirectFile) after.1.part node j)) ∧
      after.2 12288 = some 60 := by
  have run : (fileLoad (diskMachine indirectFile) 20 (sampleFile 1) (.startUp, .blank)).success?.any
      (fun after => after.1.file.any (indirectFacts after)) = true := by
    decide +kernel
  obtain ⟨after, loads, facts⟩ := (Option.any_eq_true _ _).mp run
  obtain ⟨node, file, facts⟩ := (Option.any_eq_true _ _).mp facts
  obtain ⟨_, loaded⟩ := Outcome.success?_eq_some.mp loads
  simp only [indirectFacts, Bool.and_eq_true, beq_iff_eq] at facts
  obtain ⟨⟨⟨⟨⟨size, bytes⟩, shift⟩, pointers⟩, last⟩, blocks⟩ := facts
  obtain ⟨node', same, contents, -⟩ := load_contents (diskMachine_steady indirectFile).fixed rfl
    (.of_empty rfl rfl) loaded
  obtain rfl : node' = node := Option.some.inj (same.symm.trans file)
  have plain : PlainFile (fun _ => indirectFile) after.1.part node' := by
    refine ⟨by omega, fun i _ inside => ?_⟩
    rw [bytes, size] at inside
    have block := List.all_eq_true.mp blocks i (List.mem_range.mpr (by omega))
    refine ⟨?_, fun _ _ => ?_, fun double => ?_⟩
    · rw [Addressable, shift]
      have small := of_decide_eq_true block
      omega
    · rw [PointerBlock, Addressable, pointers, shift]
      decide
    · rw [bytes] at double
      omega
  have holds := contents plain
  rw [size] at holds
  exact ⟨after, node', loaded, file, size, holds, (holds 12288 (by decide)).trans (congrArg some last)⟩

end IQuik.Ext2
