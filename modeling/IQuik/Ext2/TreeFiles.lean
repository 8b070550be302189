import IQuik.Ext2.FindFile
import IQuik.Ext2.Loads

namespace IQuik.Ext2

open IQuik.Data IQuik.Program IQuik.Storage

/-! # The files of a tree -/

/-- A path leads to an object of a type, through no symlink that has only slashes. -/
def LeadsTo (tree : Tree) (links : List Str) (out : Option Nat) (type : FileType) (ino : Nat) : Prop :=
  out = some ino ∧ tree.type ino = type ∧ ∀ target ∈ links, components target ≠ []

/-- A path leads to a regular file. -/
abbrev LeadsToFile (tree : Tree) (links : List Str) (out : Option Nat) (ino : Nat) : Prop :=
  LeadsTo tree links out .reg ino

/-- `start` is the state in which the volume of the path has been mounted, and the volume holds
the tree. -/
structure Volume (machine : Machine) (image : Nat → Image) (fuel : Nat) (path : Path) (fs start : Fs)
    (data : Ext2Data) (inodes : Nat → Inode) (tree : Tree) : Prop where
  opens : openExt2 machine fuel path.device path.part fs = .ok () start
  warm : Warm image start start
  mounted : start.root = some data
  holds : HoldsTree machine image start data inodes tree

/-- A call of `file_len` and one of `file_load` for the same path: they give the file that the
path leads to, or the same error. -/
structure ServesPath (image : Nat → Image) (part : Part) (data : Ext2Data) (inodes : Nat → Inode) (tree : Tree)
    (links : List Str) (out : Option Nat) (buffer : Buffer) (len : Outcome QuikErr Fs Nat)
    (load : Outcome QuikErr (Fs × Buffer) Unit) : Prop where
  found : ∀ ino, LeadsToFile tree links out ino →
    (∃ opened, len = .ok (inodes ino).size opened) ∧ ∃ after, load = .ok () after ∧
      ∀ j, j < (inodes ino).size → after.2 j = some (fileByte image part (treeNode data inodes ino) j)
  refused : (∀ ino, ¬LeadsToFile tree links out ino) →
    ∃ code opened, len = .error code opened ∧ load = .error code (opened, buffer)

variable {machine : Machine} {image : Nat → Image} {fuel : Nat} {path : Path} {start fs : Fs} {data : Ext2Data}
  {inodes : Nat → Inode} {tree : Tree} {links : List Str} {out : Option Nat}

theorem Tree.of_type_reg {ino : Nat} (type : tree.type ino = .reg) : tree ino = some .reg := by
  unfold Tree.type at type
  split at type
  · cases type
  · cases type
  · assumption
  · cases type

theorem fileByte_of_inode {part : Part} {node other : Node} (data : other.data = node.data)
    (inode : other.inode = node.inode) : fileByte image part other = fileByte image part node := by
  obtain ⟨_, _, number, read⟩ := other
  obtain rfl : _ = node.data := data
  obtain rfl : _ = node.inode := inode
  rfl

section Finding

variable (fixed : machine.Fixed image) (reliable : machine.Reliable) (warm : Warm image start start)
  (holds : HoldsTree machine image start data inodes tree)
include fixed reliable warm holds

/-- The lookup of a regular file or of a directory, in any state in which the volume is mounted. -/
theorem findFile_leads {filename : Str} (resolves : Resolves tree Tree.root (components filename) links out)
    (few : links.length ≤ 7) (enough : weight (components filename) links + entryBound ≤ fuel)
    (later : Later image start fs) (mounted : fs.root = some data) {type : FileType}
    (asked : type = .reg ∨ type = .directory) :
    (∀ ino, LeadsTo tree links out type ino → ∃ node after nest,
      ext2fsFindFile machine fuel filename data.diropen type fs = .ok (node, type) after ∧
        Stands data inodes ino node ∧ Ready image start data nest after) ∧
    ((∀ ino, ¬LeadsTo tree links out type ino) →
      ∃ code after, ext2fsFindFile machine fuel filename data.diropen type fs = .error code after) := by
  obtain ⟨listed, root⟩ := holds.root
  have directory := Tree.type_directory root
  have ready : Ready image start data 0 { fs with symlinknest := 0 } := ⟨later.nested 0, mounted, rfl⟩
  have accepted {ino : Nat} (same : tree.type ino = type) : tree.Accepts type ino :=
    ⟨fun regular => same.trans regular, fun directory => same.trans directory⟩
  have other {ino : Nat} (accepts : tree.Accepts type ino) : tree.type ino = type := by
    obtain rfl | rfl := asked
    · exact accepts.1 rfl
    · exact accepts.2 rfl
  by_cases empty : components filename = []
  · -- Slashes only are the root directory.
    rw [empty] at resolves
    cases resolves
    rcases findFile1_cases machine fuel filename with ⟨-, run⟩ | ⟨name, named, simple, same, -⟩
    · have found : ext2fsFindFile1 machine fuel filename data.diropen { fs with symlinknest := 0 } =
          .ok (data.diropen, none) { fs with symlinknest := 0 } := congrFun (run data.diropen) _
      obtain ⟨finds, refuses⟩ : (tree.Accepts type Tree.root → _) ∧ (¬tree.Accepts type Tree.root → _) :=
        findFile_typed found directory.symm
      refine ⟨fun ino leads => ?_, fun none' => ?_⟩
      · obtain ⟨same, expected, -⟩ := leads
        obtain rfl := Option.some.inj same
        rw [← expected]
        exact ⟨data.diropen, _, 0, expected ▸ finds (accepted expected), holds.diropen, ready⟩
      · obtain ⟨code, refused⟩ := refuses fun accepts =>
          none' Tree.root ⟨rfl, other accepts, fun _ member => absurd member List.not_mem_nil⟩
        exact ⟨code, _, refused⟩
    · rw [empty, components_name named simple] at same
      cases same
  · have leads := findFile1_leads (findLoop_leads holds fixed reliable warm fuel) empty holds.diropen directory ready
      resolves (by omega) enough
    refine ⟨fun ino expected => ?_, fun none' => ?_⟩
    · obtain ⟨same, expected, plain⟩ := expected
      obtain ⟨node, after, run, stands, ready'⟩ := leads.found ino same plain
      have finds := (findFile_typed run rfl).1 (accepted expected)
      rw [expected] at finds
      exact ⟨node, after, _, finds, stands, ready'⟩
    · cases result : out with
      | none =>
          obtain ⟨code, after, run⟩ := leads.missing result
          exact ⟨code, after, findFile_error run⟩
      | some ino =>
          rcases slashes_or_plain links with plain | slashes
          · obtain ⟨node, after, run, -⟩ := leads.found ino result plain
            obtain ⟨code, refused⟩ := (findFile_typed run rfl).2 fun accepts =>
              none' ino ⟨result, other accepts, plain⟩
            exact ⟨code, after, refused⟩
          · rcases leads.stray ino result slashes with ⟨code, after, run⟩ | ⟨node, after, run⟩
            · exact ⟨code, after, findFile_error run⟩
            · rcases findFile_stray run with ⟨code, refused⟩ | ⟨reg, directory, -⟩
              · exact ⟨code, after, refused⟩
              · exact absurd asked (not_or.mpr ⟨reg, directory⟩)

/-- `ext2fs_open` leaves the file open, as the tree has it. -/
theorem openFile_reg {filename : Str} (resolves : Resolves tree Tree.root (components filename) links out)
    (few : links.length ≤ 7) (enough : weight (components filename) links + entryBound ≤ fuel)
    (mounted : start.root = some data) :
    (∀ ino, LeadsToFile tree links out ino → ∃ node after,
      ext2fsOpen machine fuel filename start = .ok (inodes ino).size after ∧ after.file = some node ∧
        node.data = data ∧ node.inode = inodes ino ∧ Later image start after ∧ after.root = some data) ∧
    ((∀ ino, ¬LeadsToFile tree links out ino) →
      ∃ code after, ext2fsOpen machine fuel filename start = .error code after) := by
  have closed : Later image start { start with file := none } :=
    ⟨rfl, rfl, warm, ⟨.refl _, warm.indir1, warm.indir2⟩, rfl⟩
  obtain ⟨finds, refuses⟩ := findFile_leads fixed reliable warm holds resolves few enough closed mounted (.inl rfl)
  unfold ext2fsOpen
  rw [Prog.view_bind, mounted]
  dsimp only
  rw [Prog.update_bind]
  refine ⟨fun ino leads => ?_, fun none' => ?_⟩
  · obtain ⟨node, found, nest, run, stands, ready⟩ := finds ino leads
    have regular : tree ino = some .reg := Tree.of_type_reg leads.2.1
    obtain ⟨first, read, -⟩ := holds.inode_run fixed reliable warm stands regular
    have repeats : Repeats image start.part EqualSizes False (fun _ => True) (nodeInode machine node) :=
      nodeInode_repeats fixed (.inr reliable) EqualSizes.stable EqualSizes.sizes node
    obtain ⟨after, again, ready'⟩ := ready.run_ok repeats (nodeInode_near node) read
    have later := ready'.later
    refine ⟨{ node with inode := inodes ino }, { after with file := some { node with inode := inodes ino } }, ?_, rfl,
      stands.volume, rfl, ⟨rfl, later.openRight, warm, ⟨.refl _, later.warmRight.indir1, later.warmRight.indir2⟩,
        later.keep⟩, ready'.root⟩
    rw [Prog.bind_run_ok run]
    dsimp only
    rw [Prog.bind_run_ok again]
    rfl
  · obtain ⟨code, after, run⟩ := refuses none'
    exact ⟨code, after, Prog.bind_run_error run⟩

end Finding

/-- Reading a whole file that can be read stores it. -/
theorem readFile_whole_run {node : Node} (fixed : machine.Fixed image) (reliable : machine.Reliable)
    (warm : Warm image fs fs) (readable : Readable image fs.part node) (buffer : Buffer) :
    ∃ after, ext2fsReadFile machine node 0 node.inode.size (fs, buffer) = .ok () after ∧
      HoldsFile image fs.part node 0 node.inode.size after.2 := by
  obtain ⟨stored, walk, bytes⟩ := walkFile_run buffer readable (Nat.le_of_eq (Nat.zero_add _))
  have agree := readFile_agrees fixed (.inr reliable : False ∨ machine.Reliable) node
    (.inr readable.sized.unmarked) 0 node.inode.size (fs, buffer) ((), buffer) ⟨warm, rfl⟩
  rw [walk] at agree
  obtain ⟨after, run, -, -, same⟩ := agree.of_ok_right
  refine ⟨after, run, ?_⟩
  rw [same]
  exact bytes

/-- A volume that has been mounted has the root directory that its inode table says. -/
theorem mount_root (fixed : machine.Fixed image) (reliable : machine.Reliable) (warm : Warm image fs fs)
    (mounts : ext2fsMount machine fs = .ok () start) :
    start.part = fs.part ∧ Warm image start start ∧ ∃ data after, start.root = some data ∧
      ext2fsReadInode machine data Tree.root start = .ok data.rootInode after := by
  have paired : PairedOpen image fs.part fs fs := ⟨rfl, rfl, warm, warm, trivial⟩
  have states := ((mount_repeats fixed (.inl trivial) (.inl trivial)).self paired mounts).2
  refine ⟨states.openLeft, states.warmLeft, ?_⟩
  obtain ⟨_, first, allocates, mounts⟩ := Prog.bind_eq_ok.mp mounts
  rw [Prog.update_bind] at mounts
  obtain ⟨data, second, reads, mounts⟩ := Prog.bind_eq_ok.mp mounts
  cases mounts
  replace reads := Prog.onError_eq_ok.mp reads
  obtain ⟨sblock, third, superblock, reads⟩ := Prog.bind_eq_ok.mp reads
  split at reads
  · cases reads
  dsimp only at reads
  rw [Prog.update_bind] at reads
  obtain ⟨rootInode, last, inode, reads⟩ := Prog.bind_eq_ok.mp reads
  cases reads
  have any : True ∨ machine.Reliable := .inl trivial
  have allocated := ((malloc_repeats any stable_true 352).self paired allocates).2
  have counted : PairedOpen image fs.part { first with dataBlocks := first.dataBlocks + 1 }
      { first with dataBlocks := first.dataBlocks + 1 } :=
    allocated.change ⟨rfl, rfl, rfl, rfl, rfl⟩ ⟨rfl, rfl, rfl, rfl, rfl⟩ trivial
  have known := ((readStruct_repeats fixed any stable_true 2 0 204).self counted superblock).2
  let size := if sblock.le32 76 = 0 then 128 else sblock.le16 88
  have sized : PairedOpen image fs.part { third with inodeSize := size } { third with inodeSize := size } :=
    known.change ⟨rfl, rfl, rfl, rfl, rfl⟩ ⟨rfl, rfl, rfl, rfl, rfl⟩ trivial
  have later : Later image { third with inodeSize := size } { second with root := some { sblock, rootInode } } :=
    ⟨rfl, states.openRight.trans sized.openRight.symm, sized.warmLeft, states.warmLeft,
      (readInode_near _ _ _ _ (congrArg Outcome.state? inode)).inodeSize.symm⟩
  have repeats : Repeats image ({ third with inodeSize := size } : Fs).part EqualSizes False (fun _ => True)
      (ext2fsReadInode machine { sblock, rootInode := { raw := fun _ => 0 } } 2) :=
    readInode_repeats fixed (.inr reliable) EqualSizes.stable EqualSizes.sizes _ _
  obtain ⟨after, again, -⟩ := repeats.later_ok (readInode_near _ _) later inode
  exact ⟨{ sblock, rootInode }, after, rfl, again⟩

/-- A path of a volume with a tree is loaded as the tree has it: the bytes of the file that it leads
to, and otherwise the error that `file_len` returns too. -/
theorem path_served (fixed : machine.Fixed image) (reliable : machine.Reliable)
    (volume : Volume machine image fuel path fs start data inodes tree)
    (resolves : Resolves tree Tree.root (components path.path) links out) (few : links.length ≤ 7)
    (readable : ∀ ino, LeadsToFile tree links out ino → Readable image start.part (treeNode data inodes ino))
    (enough : weight (components path.path) links + entryBound ≤ fuel) (buffer : Buffer) :
    ServesPath image start.part data inodes tree links out buffer (fileLen machine fuel path fs)
      (fileLoad machine fuel path (fs, buffer)) := by
  obtain ⟨opens, refuses⟩ := openFile_reg fixed reliable volume.warm volume.holds resolves few enough volume.mounted
  have length : fileLen machine fuel path fs = ext2fsOpen machine fuel path.path start := Prog.bind_run_ok volume.opens
  refine ⟨fun ino leads => ?_, fun none' => ?_⟩
  · obtain ⟨node, opened, run, file, data', inode, later, root⟩ := opens ino leads
    rw [← length] at run
    refine ⟨⟨opened, run⟩, ?_⟩
    have part : opened.part = start.part := later.openRight
    have able : Readable image opened.part node := by
      rw [part]
      exact (readable ino leads).of_inode data' inode
    obtain ⟨after, reads, bytes⟩ := readFile_whole_run fixed reliable later.warmRight able buffer
    rw [inode] at reads bytes
    refine ⟨after, ?_, fun j below => ?_⟩
    · have first : Prog.onFirst (fileLen machine fuel path) (fs, buffer) = .ok (inodes ino).size (opened, buffer) :=
        Prog.onFirst_eq_ok.mpr ⟨run, rfl⟩
      rw [fileLoad_eq, Prog.bind_run_ok first, ext2fsRead_file root file]
      exact reads
    · have byte : after.2 (0 + j) = some (fileByte image opened.part node (0 + j)) := bytes j below
      rw [Nat.zero_add, part] at byte
      exact byte.trans (congrArg some (congrFun (fileByte_of_inode data' inode) j))
  · obtain ⟨code, opened, run⟩ := refuses none'
    rw [← length] at run
    refine ⟨code, opened, run, ?_⟩
    rw [fileLoad_eq]
    exact Prog.bind_run_error (Prog.onFirst_eq_error.mpr ⟨run, rfl⟩)

/-- A regular file that a path leads to, on a volume with a tree. -/
structure StoredFile (machine : Machine) (image : Nat → Image) (fuel : Nat) (path : Path) (fs : Fs) where
  start : Fs
  data : Ext2Data
  inodes : Nat → Inode
  tree : Tree
  links : List Str
  ino : Nat
  volume : Volume machine image fuel path fs start data inodes tree
  resolves : Resolves tree Tree.root (components path.path) links (some ino)
  few : links.length ≤ 7
  regular : LeadsToFile tree links (some ino) ino
  readable : Readable image start.part (treeNode data inodes ino)
  enough : weight (components path.path) links + entryBound ≤ fuel

namespace StoredFile

variable (file : StoredFile machine image fuel path fs)

def size : Nat := (file.inodes file.ino).size

def content : Image := fileByte image file.start.part (treeNode file.data file.inodes file.ino)

/-- `file_len` and, after it, `file_load` give the file, whatever was asked of the heap in between. -/
theorem loaded (fixed : machine.Fixed image) (reliable : machine.Reliable) (unmounted : fs.part.mounted = false)
    (caches : CachesWarm machine image fuel path fs) {size mallocs : Nat} {opened : Fs} {buffer : Buffer}
    {after : Fs × Buffer} (length : fileLen machine fuel path fs = .ok size opened)
    (load : fileLoad machine fuel path ({ opened with mallocs := mallocs }, buffer) = .ok () after) :
    size = file.size ∧ ∀ j, j < file.size → after.2 j = some (file.content j) := by
  have volume := file.volume
  obtain ⟨node, first, opens, kept, data', inode, later, -⟩ := (openFile_reg fixed reliable volume.warm volume.holds
    file.resolves file.few file.enough volume.mounted).1 file.ino file.regular
  have same : fileLen machine fuel path fs = ext2fsOpen machine fuel path.path file.start :=
    Prog.bind_run_ok volume.opens
  rw [same, opens] at length
  cases length
  refine ⟨rfl, fun j below => ?_⟩
  obtain ⟨node', known⟩ := fileLen_eq_ok fixed unmounted caches (same.trans opens)
  obtain rfl : node = node' := Option.some.inj (kept.symm.trans known.file)
  rw [fileLoad_eq] at load
  obtain ⟨size, ⟨again, blank⟩, second, load⟩ := Prog.bind_eq_ok.mp load
  obtain ⟨second, unstored⟩ := Prog.onFirst_eq_ok.mp second
  obtain ⟨rfl, part, reopened⟩ := fileLen_again fixed unmounted caches (same.trans opens) mallocs second known
  have place : again.part = file.start.part := part.trans later.openRight
  have able : Readable image again.part node := by
    rw [place]
    exact file.readable.of_inode data' inode
  obtain ⟨final, reads, bytes⟩ := readFile_whole_run fixed reliable reopened.warm able blank
  have run := ext2fsRead_eq_ok reopened.file load
  rw [← inode, reads] at run
  cases run
  rw [inode] at bytes
  have byte : after.2 (0 + j) = some (fileByte image again.part node (0 + j)) := bytes j below
  have content : fileByte image file.start.part node = file.content := fileByte_of_inode data' inode
  rwa [Nat.zero_add, place, content] at byte

end StoredFile

section Samples

/-- A volume with one file, `f`: a kernel of 320 bytes, which starts with a nop at 0x100. -/
def kernelDisk : Image :=
  sampleDisk (sampleVolume 32768 oneFile [(256, [0, 0x80, 0, 0, 0x40, 1]), (296, [6])] [(6, [0x7F, 69, 76, 70, 1, 2])])
    [(38936, [0xC0, 0, 0, 0]), (38943, [52]), (38957, [1]), (38967, [1]), (38970, [1]), (38972, [0xC0]),
     (38983, [0x40]), (38987, [0x40]), (39168, [0x60])]

def kernelMachine : Machine := diskMachine kernelDisk

theorem kernelMachine_steady : Steady kernelMachine fun _ => kernelDisk := diskMachine_steady kernelDisk

/-- With the partition open and one block taken from the heap, and with the volume mounted. -/
def kernelOpened : Fs := { ((partOpen kernelMachine 20 (str "hd") 1 .startUp).state?).getD .startUp with mallocs := 1 }

def kernelMounted : Fs := ((ext2fsMount kernelMachine kernelOpened).state?).getD kernelOpened

def kernelData : Ext2Data := kernelMounted.root.getD smallVolume

def kernelInodes (ino : Nat) : Inode :=
  ((ext2fsReadInode kernelMachine kernelData ino kernelMounted).value?).getD { raw := fun _ => 0 }

def kernelTree : Tree := fun ino =>
  if ino = 2 then some (.directory [(str "f", 3)]) else if ino = 3 then some .reg else none

/-- The partition is opened, and not marked as mounted. -/
theorem kernelOpened_run : ((partOpen kernelMachine 20 (str "hd") 1 .startUp).success?).isSome = true ∧
    OpenedAs (sampleFile 1).device (sampleFile 1).part kernelOpened.part ∧ kernelOpened.part.mounted = false := by
  refine ⟨by decide +kernel, ?_, by decide +kernel⟩
  constructor <;> decide +kernel

theorem kernelOpened_warm : Warm (fun _ => kernelDisk) kernelOpened kernelOpened := by
  obtain ⟨after, success⟩ := Option.isSome_iff_exists.mp kernelOpened_run.1
  obtain ⟨value, opens⟩ := Outcome.success?_eq_some.mp success
  have same : kernelOpened = { after with mallocs := 1 } := by
    rw [kernelOpened, opens]
    rfl
  rw [same]
  have warm : CachesWarm kernelMachine (fun _ => kernelDisk) 20 (sampleFile 1) .startUp := .of_empty rfl rfl
  have warmed := warm after opens
  exact ⟨.refl _, warmed.indir1, warmed.indir2⟩

theorem kernelMounted_run : ext2fsMount kernelMachine kernelOpened = .ok () kernelMounted := by
  have run : ((ext2fsMount kernelMachine kernelOpened).success?).isSome = true := by decide +kernel
  obtain ⟨after, success⟩ := Option.isSome_iff_exists.mp run
  obtain ⟨value, mounts⟩ := Outcome.success?_eq_some.mp success
  rw [kernelMounted, mounts]
  rfl

theorem kernelTree_cases {ino : Nat} {object : Object} (known : kernelTree ino = some object) :
    (ino = 2 ∧ object = .directory [(str "f", 3)]) ∨ (ino = 3 ∧ object = .reg) := by
  unfold kernelTree at known
  split at known
  · exact .inl ⟨‹_›, (Option.some.inj known).symm⟩
  · split at known
    · exact .inr ⟨‹_›, (Option.some.inj known).symm⟩
    · cases known

def kernelEntry : Entry := { inode := 3, direntlen := 12, filetype := 1, filename := str "f" }

/-- The two inodes are read, and what they describe can be read. -/
theorem kernelTree_inode {ino : Nat} (present : ino = 2 ∨ ino = 3) :
    (ext2fsReadInode kernelMachine kernelData ino kernelMounted).value?.isSome = true ∧
      Readable (fun _ => kernelDisk) kernelMounted.part (treeNode kernelData kernelInodes ino) := by
  obtain rfl | rfl := present
  · exact ⟨by decide +kernel, smallFile_readable _ (by decide +kernel) (by decide +kernel) (by decide +kernel)
      (show 4 < 2 ^ 31 by decide) (by decide +kernel)⟩
  · exact ⟨by decide +kernel, smallFile_readable _ (by decide +kernel) (by decide +kernel) (by decide +kernel)
      (show 6 < 2 ^ 31 by decide) (by decide +kernel)⟩

theorem kernelTree_read {ino : Nat} (present : ino = 2 ∨ ino = 3) :
    ∃ after, ext2fsReadInode kernelMachine kernelData ino kernelMounted = .ok (kernelInodes ino) after := by
  obtain ⟨inode, known⟩ := Option.isSome_iff_exists.mp (kernelTree_inode present).1
  obtain ⟨after, read⟩ := Outcome.value?_eq_some.mp known
  refine ⟨after, ?_⟩
  rw [read, kernelInodes, known, Option.getD_some]

theorem kernelTree_held :
    HoldsTree kernelMachine (fun _ => kernelDisk) kernelMounted kernelData kernelInodes kernelTree where
  read ino object known := kernelTree_read ((kernelTree_cases known).imp (·.1) (·.1))
  root := ⟨_, rfl⟩
  rootInode := by
    obtain ⟨-, -, data, after, mounted, read⟩ := mount_root kernelMachine_steady.fixed
      kernelMachine_steady.reliable kernelOpened_warm kernelMounted_run
    have same : kernelData = data := by rw [kernelData, mounted, Option.getD_some]
    obtain ⟨after', read'⟩ := kernelTree_read (.inl rfl)
    rw [same] at read'
    have read : ext2fsReadInode kernelMachine data 2 kernelMounted = .ok data.rootInode after := read
    rw [read] at read'
    rw [same]
    exact (Outcome.ok.inj read').1
  directories ino listed known := by
    obtain ⟨rfl, directory⟩ | ⟨-, regular⟩ := kernelTree_cases known
    · obtain rfl : listed = _ := Object.directory.inj directory
      refine ⟨[kernelEntry], ⟨?_, by decide +kernel, ?_, List.nodup_singleton _, ?_, ?_,
        headers_of_named (by decide)⟩, rfl⟩
      · exact (kernelTree_inode (.inl rfl)).2
      · intro entry member
        obtain rfl := List.mem_singleton.mp member
        decide
      · intro entry member
        obtain rfl := List.mem_singleton.mp member
        decide
      · intro entry member
        obtain rfl := List.mem_singleton.mp member
        rfl
    · cases regular
  symlinks ino target known := by
    obtain ⟨-, object⟩ | ⟨-, object⟩ := kernelTree_cases known
    · cases object
    · cases object

theorem kernelOpened_again (fuel : Nat) :
    partOpen kernelMachine fuel (sampleFile 1).device (sampleFile 1).part kernelOpened = .ok () kernelOpened :=
  partOpen_same kernelMachine kernelOpened_run.2.1 (by decide) fuel

theorem kernelOpened_caches (fuel : Nat) :
    CachesWarm kernelMachine (fun _ => kernelDisk) fuel (sampleFile 1) kernelOpened := by
  intro after opens
  rw [kernelOpened_again] at opens
  cases opens
  exact kernelOpened_warm

theorem kernelVolume_opens (fuel : Nat) :
    Volume kernelMachine (fun _ => kernelDisk) fuel (sampleFile 1) kernelOpened kernelMounted kernelData kernelInodes
      kernelTree where
  opens := by
    rw [openExt2_unmounted kernelOpened_run.2.2, Prog.bind_run_ok (kernelOpened_again fuel)]
    exact kernelMounted_run
  warm := (mount_root kernelMachine_steady.fixed kernelMachine_steady.reliable kernelOpened_warm
    kernelMounted_run).2.1
  mounted := by
    obtain ⟨-, -, data, -, mounted, -⟩ := mount_root kernelMachine_steady.fixed kernelMachine_steady.reliable
      kernelOpened_warm kernelMounted_run
    rw [kernelData, mounted, Option.getD_some]
  holds := kernelTree_held

theorem kernelPath_names : components (sampleFile 1).path = [str "f"] := rfl

theorem kernelTree_resolves : Resolves kernelTree Tree.root (components (sampleFile 1).path) [] (some 3) := by
  rw [kernelPath_names]
  exact .step (show kernelTree.lookup 2 (str "f") = some 3 from rfl) rfl (.done 3)

theorem kernelFile_readable :
    Readable (fun _ => kernelDisk) kernelMounted.part (treeNode kernelData kernelInodes 3) :=
  (kernelTree_inode (.inr rfl)).2

theorem kernelPath_weight : weight (components (sampleFile 1).path) [] + entryBound ≤ entryBound + 1 := by
  rw [kernelPath_names]
  exact Nat.le_of_eq (Nat.add_comm 1 entryBound)

theorem path_served_kernel : ServesPath (fun _ => kernelDisk) kernelMounted.part kernelData kernelInodes kernelTree []
    (some 3) .blank (fileLen kernelMachine (entryBound + 1) (sampleFile 1) kernelOpened)
    (fileLoad kernelMachine (entryBound + 1) (sampleFile 1) (kernelOpened, .blank)) := by
  have steady := kernelMachine_steady
  refine path_served steady.fixed steady.reliable (kernelVolume_opens _) kernelTree_resolves (by decide)
    (fun ino leads => ?_) kernelPath_weight .blank
  obtain rfl : 3 = ino := Option.some.inj leads.1
  exact kernelFile_readable

/-- The kernel as a stored file. -/
def kernelStored : StoredFile kernelMachine (fun _ => kernelDisk) (entryBound + 1) (sampleFile 1) kernelOpened where
  start := kernelMounted
  data := kernelData
  inodes := kernelInodes
  tree := kernelTree
  links := []
  ino := 3
  volume := kernelVolume_opens _
  resolves := kernelTree_resolves
  few := by decide
  regular := ⟨rfl, by decide +kernel, fun _ member => absurd member List.not_mem_nil⟩
  readable := kernelFile_readable
  enough := kernelPath_weight

end Samples

end IQuik.Ext2
