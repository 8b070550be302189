import IQuik.Ext2.Content
import IQuik.Ext2.ShortReads

namespace IQuik.Ext2

open IQuik.Data IQuik.Program IQuik.Storage

/-! # Reads of parts of a file -/

variable {machine : Machine} {image : Nat → Image} {part : Part} {node : Node} {fs : Fs}

/-! A read that succeeds did what the walk without caches does. -/

theorem CachesSound.near {shift calls : Nat} (sound : CachesSound image shift fs) :
    CachesSound image shift { fs with calls } := ⟨sound.indir1, sound.indir2⟩

section Walked

variable (fixed : machine.Fixed image)
include fixed

theorem fileSector_walks {i sector : Nat} {after : Fs}
    (sound : CachesSound image node.data.log2Ext2BlockSize fs)
    (found : fileSector machine node i fs = .ok sector after) :
    walkSector image fs.part node i () = .ok sector () ∧ Near fs after ∧
      CachesSound image node.data.log2Ext2BlockSize after := by
  obtain ⟨block, middle, lookup, shift⟩ := Prog.bind_eq_ok.mp found
  obtain ⟨count, shifted, rfl⟩ := shl32_eq_ok.mp shift
  obtain ⟨walk, near, kept⟩ := (readBlock_exits node i fixed sound).of_ok rfl lookup
  exact ⟨(Prog.bind_run_ok walk).trans (shl32_eq_ok.mpr ⟨count, shifted, rfl⟩), near, kept⟩

theorem readFileBlock_walks {range : Range} {i place : Nat} {buffer : Buffer} {after : Fs × Buffer}
    (sound : CachesSound image range.node.data.log2Ext2BlockSize fs)
    (stored : readFileBlock machine range i place (fs, buffer) = .ok () after) :
    walkFileBlock image fs.part range i place ((), buffer) = .ok () ((), after.2) ∧
      Near fs after.1 ∧ CachesSound image range.node.data.log2Ext2BlockSize after.1 := by
  obtain ⟨sector, ⟨middle, same⟩, found, rest⟩ := Prog.bind_eq_ok.mp stored
  obtain ⟨found, rfl⟩ := Prog.onFirst_eq_ok.mp found
  obtain ⟨walk, near, kept⟩ := fileSector_walks fixed sound found
  have lookup : Prog.onFirst (walkSector image fs.part range.node i) ((), same) =
      (.ok sector ((), same) : Outcome QuikErr (Unit × Buffer) Nat) := Prog.onFirst_eq_ok.mpr ⟨walk, rfl⟩
  unfold walkFileBlock
  rw [Prog.bind_run_ok lookup]
  unfold storeBlock at rest
  unfold walkStore
  by_cases hole : sector = 0
  · rw [if_neg (not_not.mpr hole)] at rest ⊢
    cases rest
    exact ⟨rfl, near, kept⟩
  · rw [if_pos hole] at rest ⊢
    unfold walkRead
    rcases partRead_cases fixed middle same sector (range.skipfirst i)
        ((range.blockend i + 2 ^ 32 - range.skipfirst i) % 2 ^ 32) place with
      ⟨-, run⟩ | ⟨inside, calls, run⟩ | ⟨-, -, calls, count, -, run⟩
    · rw [run] at rest
      cases rest
    · rw [run] at rest
      cases rest
      rw [← near.part, if_neg (Nat.not_le_of_lt inside)]
      exact ⟨rfl, near.trans ⟨_, _, _, _, rfl⟩, kept.near⟩
    · rw [run] at rest
      cases rest

theorem readFileBlocks_walks {range : Range} {count i place : Nat} {buffer : Buffer} {after : Fs × Buffer}
    (sound : CachesSound image range.node.data.log2Ext2BlockSize fs)
    (stored : readFileBlocks machine range count i place (fs, buffer) = .ok () after) :
    walkFileBlocks image fs.part range count i place ((), buffer) = .ok () ((), after.2) ∧
      Near fs after.1 ∧ CachesSound image range.node.data.log2Ext2BlockSize after.1 := by
  unfold readFileBlocks at stored
  unfold walkFileBlocks
  induction count generalizing i place buffer fs with
  | zero =>
      cases stored
      exact ⟨rfl, .refl _, sound⟩
  | succ count ih =>
      obtain ⟨_, ⟨middle, buffer'⟩, block, stored⟩ := Prog.bind_eq_ok.mp stored
      obtain ⟨walk, near, kept⟩ := readFileBlock_walks fixed sound block
      obtain ⟨walks, next, final⟩ := ih kept stored
      rw [near.part] at walks
      exact ⟨(Prog.bind_run_ok walk).trans walks, near.trans next, final⟩

theorem readFile_walks {pos len : Nat} {buffer : Buffer} {after : Fs × Buffer}
    (sound : CachesSound image node.data.log2Ext2BlockSize fs)
    (stored : ext2fsReadFile machine node pos len (fs, buffer) = .ok () after) :
    walkFile image fs.part node pos len ((), buffer) = .ok () ((), after.2) ∧
      Near fs after.1 ∧ CachesSound image node.data.log2Ext2BlockSize after.1 := by
  obtain ⟨blocksize, ⟨middle, buffer'⟩, size, rest⟩ := Prog.bind_eq_ok.mp stored
  obtain ⟨size, rfl⟩ := Prog.onFirst_eq_ok.mp size
  obtain ⟨bytes, sized, rfl⟩ := ext2BlockSizeInt_eq_ok.mp size
  have known : Prog.onFirst (ext2BlockSizeInt node.data) ((), buffer') =
      (.ok blocksize ((), buffer') : Outcome QuikErr (Unit × Buffer) Nat) :=
    Prog.onFirst_eq_ok.mpr ⟨ext2BlockSizeInt_eq_ok.mpr ⟨bytes, sized, rfl⟩, rfl⟩
  unfold walkFile
  rw [Prog.bind_run_ok known]
  have start : CachesSound image (fileRange node pos len blocksize).node.data.log2Ext2BlockSize middle := sound
  exact readFileBlocks_walks fixed start rest

end Walked

section Solid

/-- Block `i` is no hole and can be addressed, and so can the blocks of pointers
on the way to it. -/
structure SolidBlock (image : Nat → Image) (part : Part) (node : Node) (i : Nat) : Prop where
  solid : treeBlock image part node i ≠ 0
  block : Addressable node.data (treeBlock image part node i)
  single : 12 ≤ i → i < 12 + node.data.blockBytes / 4 → Addressable node.data node.inode.indirBlock
  double : 12 + node.data.blockBytes / 4 ≤ i →
    Addressable node.data node.inode.doubleIndirBlock ∧ Addressable node.data (treeRow image part node i)

/-- A range of the file over blocks that are there. -/
structure SolidRange (image : Nat → Image) (part : Part) (node : Node) (pos len : Nat) : Prop where
  inside : pos + len ≤ node.inode.size
  bound : pos + len + node.data.blockBytes ≤ 2 ^ 32
  blocks : ∀ i, pos / node.data.blockBytes ≤ i → i * node.data.blockBytes < pos + len →
    SolidBlock image part node i

/-- The entries of a hole are zero. -/
theorem treeEntry_hole (data : Ext2Data) (index : Nat) : treeEntry image part data 0 index = 0 := if_pos rfl

theorem SolidBlock.plain {i : Nat} (solid : SolidBlock image part node i) : PlainBlock image part node i where
  block := solid.block
  single := by
    intro lower upper
    refine ⟨fun none => solid.solid ?_, solid.single lower upper⟩
    unfold treeBlock
    simp only [if_neg (Nat.not_lt.mpr lower), if_pos upper]
    rw [none, treeEntry_hole]
  double := by
    intro lower
    have beyond : ¬i < 12 := by omega
    have row : treeRow image part node i ≠ 0 := by
      refine fun none => solid.solid ?_
      unfold treeBlock
      simp only [if_neg beyond, if_neg (Nat.not_lt.mpr lower)]
      rw [none, treeEntry_hole]
    refine ⟨⟨fun none => row ?_, (solid.double lower).1⟩, row, (solid.double lower).2⟩
    unfold treeRow
    rw [none]
    exact treeEntry_hole _ _

variable {range : Range}

/-- Without holes an iteration stores nothing behind the range. -/
theorem walkFileBlock_keeps (exact' : range.Exact) {i place : Nat} {buffer : Buffer} {after : Unit × Buffer}
    (inside : i < range.blockcnt) (at' : range.At i place) (solid : SolidBlock image part range.node i)
    (stored : walkFileBlock image part range i place ((), buffer) = .ok () after) (index : Nat)
    (behind : range.len ≤ index) : after.2 index = buffer index := by
  have bound := exact'.bound
  have ends := exact'.blockend_eq inside
  have starts := exact'.lt_blockcnt.mp inside
  have skip := exact'.skipfirst_le inside
  unfold Range.At at at'
  rw [walkFileBlock_eq_ok solid.plain stored, if_neg solid.solid]
  apply Buffer.store_outside
  omega

theorem walkFileBlocks_keeps (exact' : range.Exact) {count i place : Nat} {buffer : Buffer}
    {after : Unit × Buffer} (rest : i + count = range.blockcnt) (first : range.pos / range.blocksize ≤ i)
    (at' : range.At i place) (solid : ∀ k, i ≤ k → k < range.blockcnt → SolidBlock image part range.node k)
    (stored : walkFileBlocks image part range count i place ((), buffer) = .ok () after) (index : Nat)
    (behind : range.len ≤ index) : after.2 index = buffer index := by
  unfold walkFileBlocks at stored
  induction count generalizing i place buffer with
  | zero =>
      cases stored
      rfl
  | succ count ih =>
      obtain ⟨_, ⟨_, middle⟩, block, stored⟩ := Prog.bind_eq_ok.mp stored
      have kept := walkFileBlock_keeps exact' (by omega) at' (solid i (Nat.le_refl i) (by omega)) block
        index behind
      have keeps := ih (by omega) (by omega) (at'.next exact'.positive first)
        (fun k lower upper => solid k (by omega) upper) stored
      exact keeps.trans kept

/-- A read that succeeds stores the bytes of the range and nothing else. -/
theorem walkFile_exact {pos len : Nat} {buffer : Buffer} {after : Unit × Buffer}
    (solid : SolidRange image part node pos len)
    (stored : walkFile image part node pos len ((), buffer) = .ok () after) (index : Nat) :
    after.2 index = if index < len then some (fileByte image part node (pos + index)) else buffer index := by
  have cut : min len node.inode.size = len := Nat.min_eq_left (by have := solid.inside; omega)
  have bound : pos + min len node.inode.size + node.data.blockBytes ≤ 2 ^ 32 := by
    rw [cut]
    exact solid.bound
  have plain : PlainRange image part node pos (min len node.inode.size) := by
    rw [cut]
    exact fun i lower upper => (solid.blocks i lower upper).plain
  have holds := walkFile_holds bound plain stored
  rw [cut] at holds
  split
  · rename_i below
    simpa using holds index below
  · rename_i behind
    have exact' := fileRange_exact bound
    refine walkFileBlocks_keeps exact' (Nat.add_sub_cancel' (fileRange_start exact')) (Nat.le_refl _)
      (fileRange_at pos len _) ?_ (walkFile_blocks stored) index ?_
    · intro k lower upper
      have starts := exact'.lt_blockcnt.mp upper
      simp only [fileRange, cut] at starts
      exact solid.blocks k lower starts
    · simp only [fileRange, cut]
      exact Nat.le_of_not_lt behind

/-- Two adjacent ranges make up a third one. -/
theorem SolidRange.split {a b c : Nat} (solid : SolidRange image part node a (c - a)) (lower : a ≤ b)
    (upper : b ≤ c) : SolidRange image part node a (b - a) ∧ SolidRange image part node b (c - b) := by
  obtain ⟨inside, bound, blocks⟩ := solid
  have later : a / node.data.blockBytes ≤ b / node.data.blockBytes := Nat.div_le_div_right lower
  refine ⟨⟨by omega, by omega, fun i first last => blocks i first (by omega)⟩,
    ⟨by omega, by omega, fun i first last => blocks i (by omega) (by omega)⟩⟩

end Solid

section Tiles

/-- `ext2fs_read_file` into the memory from `address` on. -/
def readFileInto (machine : Machine) (node : Node) (pos len address : Nat) : FillProg Unit :=
  Prog.focus (fun state => (state.1, state.2.tail address))
    (fun after state => (after.1, state.2.splice address after.2))
    (ext2fsReadFile machine node pos len)

theorem readFileInto_exact (fixed : machine.Fixed image)
    (sound : CachesSound image node.data.log2Ext2BlockSize fs) {pos len address : Nat} {memory : Buffer}
    {after : Fs × Buffer} (solid : SolidRange image fs.part node pos len)
    (stored : readFileInto machine node pos len address (fs, memory) = .ok () after) :
    (Near fs after.1 ∧ CachesSound image node.data.log2Ext2BlockSize after.1) ∧
      ∀ index, after.2 index = if address ≤ index ∧ index < address + len then
        some (fileByte image fs.part node (pos + (index - address))) else memory index := by
  obtain ⟨contents, read, rfl⟩ := Prog.focus_eq_ok.mp stored
  obtain ⟨walk, kept⟩ := readFile_walks fixed sound read
  refine ⟨kept, fun index => ?_⟩
  have bytes := walkFile_exact solid walk (index - address)
  simp only [Buffer.splice]
  by_cases below : index < address
  · rw [if_pos below, if_neg (by omega)]
  · rw [if_neg below, bytes, Buffer.tail, Nat.add_sub_cancel' (Nat.le_of_not_lt below)]
    have same : index - address < len ↔ address ≤ index ∧ index < address + len := by omega
    simp only [same]

/-- A read of a part of a file that succeeds stores the bytes of that part and
nothing else. Two reads of adjacent parts into adjacent memory store what one
read of both stores. -/
theorem readFile_tiles (fixed : machine.Fixed image)
    (sound : CachesSound image node.data.log2Ext2BlockSize fs) :
    (∀ pos len buffer after, SolidRange image fs.part node pos len →
      ext2fsReadFile machine node pos len (fs, buffer) = .ok () after →
      ∀ index, after.2 index =
        if index < len then some (fileByte image fs.part node (pos + index)) else buffer index) ∧
    ∀ a b c address memory middle tiled whole, a ≤ b → b ≤ c →
      SolidRange image fs.part node a (c - a) →
      readFileInto machine node a (b - a) address (fs, memory) = .ok () middle →
      readFileInto machine node b (c - b) (address + (b - a)) middle = .ok () tiled →
      readFileInto machine node a (c - a) address (fs, memory) = .ok () whole →
      tiled.2 = whole.2 := by
  constructor
  · intro pos len buffer after solid stored
    exact walkFile_exact solid (readFile_walks fixed sound stored).1
  · intro a b c address memory middle tiled whole lower upper solid first second both
    obtain ⟨front, back⟩ := solid.split lower upper
    obtain ⟨⟨near, kept⟩, firstBytes⟩ := readFileInto_exact fixed sound front first
    rw [← near.part] at back
    obtain ⟨-, secondBytes⟩ := readFileInto_exact fixed kept back second
    obtain ⟨-, bytes⟩ := readFileInto_exact fixed sound solid both
    funext index
    rw [secondBytes, firstBytes, bytes, near.part]
    by_cases inSecond : address + (b - a) ≤ index ∧ index < address + (b - a) + (c - b)
    · rw [if_pos inSecond, if_pos (by omega)]
      congr 2
      omega
    · rw [if_neg inSecond]
      have same : address ≤ index ∧ index < address + (b - a) ↔
          address ≤ index ∧ index < address + (c - a) := by omega
      simp only [same]

/-- Block 5 of a partition, with four bytes in it. -/
def fourBytes : Image := .ofRuns [(32768 + 5 * 1024, [1, 2, 3, 4])]

/-- The file that has those bytes. -/
def fourNode : Node := { zeroNode with inode := { raw := .ofRuns [(4, [4]), (40, [5])] } }

theorem fourNode_solid {pos len : Nat} (inside : pos + len ≤ 4) :
    SolidRange (fun _ => fourBytes) zeroDisk.part fourNode pos len where
  inside := by
    have size : fourNode.inode.size = 4 := by decide +kernel
    rwa [size]
  bound := by
    have size : fourNode.data.blockBytes = 1024 := by decide +kernel
    omega
  blocks := by
    intro i _ upper
    have size : fourNode.data.blockBytes = 1024 := by decide +kernel
    rw [size] at upper
    obtain rfl : i = 0 := by omega
    refine ⟨by decide +kernel, ?_, fun lower => absurd lower (by decide), fun lower => ?_⟩
    · unfold Addressable
      decide +kernel
    · rw [size] at lower
      omega

theorem readFile_tiles_sample : ∃ after middle tiled whole,
    ext2fsReadFile (diskMachine fourBytes) fourNode 1 2 (zeroDisk, .blank) = .ok () after ∧
    (∀ index, after.2 index = if index < 2 then
      some (fileByte (fun _ => fourBytes) zeroDisk.part fourNode (1 + index)) else none) ∧
    readFileInto (diskMachine fourBytes) fourNode 0 1 7 (zeroDisk, .blank) = .ok () middle ∧
    readFileInto (diskMachine fourBytes) fourNode 1 3 8 middle = .ok () tiled ∧
    readFileInto (diskMachine fourBytes) fourNode 0 4 7 (zeroDisk, .blank) = .ok () whole ∧
    tiled.2 = whole.2 := by
  have runs : ((ext2fsReadFile (diskMachine fourBytes) fourNode 1 2 (zeroDisk, .blank)).success?.isSome &&
      (((readFileInto (diskMachine fourBytes) fourNode 0 1 7 (zeroDisk, .blank)).success?.bind fun middle =>
        (readFileInto (diskMachine fourBytes) fourNode 1 3 8 middle).success?).isSome &&
      (readFileInto (diskMachine fourBytes) fourNode 0 4 7 (zeroDisk, .blank)).success?.isSome)) = true := by
    decide +kernel
  simp only [Bool.and_eq_true, Option.isSome_iff_exists, Option.bind_eq_some_iff] at runs
  obtain ⟨⟨after, part⟩, ⟨tiled, middle, front, back⟩, whole, both⟩ := runs
  obtain ⟨_, part⟩ := Outcome.success?_eq_some.mp part
  obtain ⟨_, front⟩ := Outcome.success?_eq_some.mp front
  obtain ⟨_, back⟩ := Outcome.success?_eq_some.mp back
  obtain ⟨_, both⟩ := Outcome.success?_eq_some.mp both
  obtain ⟨exact', tiles⟩ := readFile_tiles (diskMachine_steady fourBytes).fixed
    (zeroDisk_sound (fun _ => fourBytes) fourNode.data.log2Ext2BlockSize)
  exact ⟨after, middle, tiled, whole, part, exact' 1 2 _ after (fourNode_solid (by decide)) part, front, back, both,
    tiles 0 1 4 7 _ middle tiled whole (by decide) (by decide) (fourNode_solid (by decide)) front back both⟩

end Tiles

end IQuik.Ext2
