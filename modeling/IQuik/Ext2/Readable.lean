import IQuik.Ext2.Content

namespace IQuik.Ext2

open IQuik.Data IQuik.Program IQuik.Storage

/-! # Reads that succeed -/

variable {image : Nat → Image} {part : Part} {node : Node}

/-- All bytes of a block lie in the partition. -/
def Inside (part : Part) (data : Ext2Data) (block : Nat) : Prop :=
  (block + 1) * data.blockBytes < part.len

/-- The block sizes of ext2 go up to 64 KiB. -/
def BlockSized (data : Ext2Data) : Prop := data.log2BlockSize ≤ 6

theorem BlockSized.shift {data : Ext2Data} (sized : BlockSized data) :
    data.log2Ext2BlockSize = data.log2BlockSize + 1 := by
  have bound : data.log2BlockSize ≤ 6 := sized
  unfold Ext2Data.log2Ext2BlockSize
  omega

theorem BlockSized.bytes {data : Ext2Data} (sized : BlockSized data) :
    data.log2Bytes = data.log2BlockSize + 10 := by
  have bound : data.log2BlockSize ≤ 6 := sized
  unfold Ext2Data.log2Bytes
  omega

theorem BlockSized.blockBytes {data : Ext2Data} (sized : BlockSized data) :
    1024 ≤ data.blockBytes ∧ data.blockBytes ≤ 65536 := by
  have bound : data.log2BlockSize ≤ 6 := sized
  have least : 2 ^ 10 ≤ 2 ^ (data.log2BlockSize + 10) :=
    Nat.pow_le_pow_right (by omega) (by omega)
  have most : 2 ^ (data.log2BlockSize + 10) ≤ 2 ^ 16 :=
    Nat.pow_le_pow_right (by omega) (by omega)
  rw [Ext2Data.blockBytes, sized.bytes]
  exact ⟨least, most⟩

/-- Block `i` and the pointer blocks on the way to it can be read. -/
structure ReadableBlock (image : Nat → Image) (part : Part) (node : Node) (i : Nat) : Prop where
  plain : PlainBlock image part node i
  reach : i < 12 + node.data.blockBytes / 4 * (node.data.blockBytes / 4 + 1)
  block : Inside part node.data (treeBlock image part node i)
  single : 12 ≤ i → i < 12 + node.data.blockBytes / 4 → Inside part node.data node.inode.indirBlock
  double : 12 + node.data.blockBytes / 4 ≤ i →
    Inside part node.data node.inode.doubleIndirBlock ∧
      Inside part node.data (treeRow image part node i)

/-- Every read of the file succeeds. -/
structure Readable (image : Nat → Image) (part : Part) (node : Node) : Prop where
  sized : BlockSized node.data
  bound : node.inode.size + node.data.blockBytes ≤ 2 ^ 32
  blocks : ∀ i, i * node.data.blockBytes < node.inode.size → ReadableBlock image part node i

section Blocks

variable (readable : Readable image part node)

theorem shl32_run {σ : Type} {value count : Nat} (known : count < 32) (state : σ) :
    shl32 value count state = (.ok (value * 2 ^ count % 2 ^ 32) state : Outcome QuikErr σ Nat) :=
  shl32_eq_ok.mpr ⟨known, rfl, rfl⟩

theorem ext2BlockSizeInt_run {σ : Type} {data : Ext2Data} (sized : BlockSized data) (state : σ) :
    ext2BlockSizeInt data state = (.ok data.blockBytes state : Outcome QuikErr σ Nat) := by
  have bound : data.log2BlockSize ≤ 6 := sized
  exact ext2BlockSizeInt_eq_ok.mpr ⟨by rw [sized.bytes]; omega, rfl, rfl⟩

/-- The sector of an addressable block, in bytes. -/
theorem sector_bytes {data : Ext2Data} {block : Nat} (sized : BlockSized data)
    (addressable : Addressable data block) :
    block * 2 ^ data.log2Ext2BlockSize % 2 ^ 32 * 512 = block * data.blockBytes := by
  have bound : data.log2BlockSize ≤ 6 := sized
  have shift : data.log2Ext2BlockSize < 32 := by rw [sized.shift]; omega
  rw [Nat.mod_eq_of_lt addressable, blockBytes_eq shift, Nat.mul_assoc]

theorem walkEntry_run {data : Ext2Data} {block index : Nat} (sized : BlockSized data)
    (pointer : PointerBlock data block) (inside : Inside part data block) :
    walkEntry image part data.blockBytes (block * 2 ^ data.log2Ext2BlockSize % 2 ^ 32) index () =
      .ok (treeEntry image part data block index) () := by
  have bound : data.log2BlockSize ≤ 6 := sized
  have shift : data.log2Ext2BlockSize < 32 := by rw [sized.shift]; omega
  have fits : ¬part.len ≤ block * 2 ^ data.log2Ext2BlockSize % 2 ^ 32 * 512 + data.blockBytes := by
    rw [sector_bytes sized pointer.2, ← Nat.succ_mul]
    exact Nat.not_le_of_lt inside
  have found : (sectorImage image part (block * 2 ^ data.log2Ext2BlockSize % 2 ^ 32) 0).le32
      (4 * index) = treeEntry image part data block index := by
    refine walkEntry_eq_ok shift pointer rfl ?_
    rw [walkEntry, if_neg fits]
    rfl
  rw [walkEntry, if_neg fits, found]
  rfl

/-- The walk finds a block that can be read. -/
theorem walkBlock_run {i : Nat} (sized : BlockSized node.data) (small : i < 2 ^ 31)
    (readable : ReadableBlock image part node i) :
    walkBlock image part node i () = .ok (treeBlock image part node i) () := by
  have bytes := sized.blockBytes
  have bound : node.data.log2BlockSize ≤ 6 := sized
  have shift : node.data.log2Ext2BlockSize < 32 := by rw [sized.shift]; omega
  have perblock : node.data.blockBytes / 4 * (node.data.blockBytes / 4 + 1) ≤ 16384 * 16385 :=
    Nat.mul_le_mul (by omega) (by omega)
  unfold walkBlock treeBlock
  rw [Prog.bind_run_ok (ext2BlockSizeInt_run sized ()), Prog.demand_pos small, Prog.pure_bind]
  by_cases direct : i < 12
  · simp only [if_pos direct]
    rfl
  simp only [if_neg direct]
  by_cases single : i < 12 + node.data.blockBytes / 4
  · simp only [if_pos single]
    rw [Prog.bind_run_ok (shl32_run shift ())]
    exact walkEntry_run sized (readable.plain.single (by omega) single)
      (readable.single (by omega) single)
  simp only [if_neg single]
  obtain ⟨pointer, row⟩ := readable.plain.double (by omega)
  obtain ⟨pointerInside, rowInside⟩ := readable.double (by omega)
  rw [Prog.demand_pos (by omega), Prog.pure_bind, if_pos readable.reach,
    Prog.bind_run_ok (shl32_run shift ()),
    Prog.bind_run_ok (walkEntry_run sized pointer pointerInside),
    Prog.bind_run_ok (shl32_run shift ())]
  exact walkEntry_run sized row rowInside

/-- Reading one block of a range succeeds. -/
theorem walkFileBlock_run {range : Range} (exact' : range.Exact) {i : Nat} (place : Nat)
    (buffer : Buffer) (sized : BlockSized range.node.data) (inside : i < range.blockcnt)
    (readable : ReadableBlock image part range.node i) :
    ∃ after, walkFileBlock image part range i place ((), buffer) = .ok () after := by
  have positive := exact'.positive
  have bytes := sized.blockBytes
  have bound := exact'.bound
  have size := exact'.blocksize
  have starts := exact'.lt_blockcnt.mp inside
  have small : i < 2 ^ 31 := by
    have le : i * 1024 ≤ i * range.blocksize := Nat.mul_le_mul_left i (by omega)
    omega
  have log : range.node.data.log2BlockSize ≤ 6 := sized
  have shift : range.node.data.log2Ext2BlockSize < 32 := by rw [sized.shift]; omega
  have lookup : Prog.onFirst (walkSector image part range.node i) ((), buffer) =
      .ok (treeBlock image part range.node i * 2 ^ range.node.data.log2Ext2BlockSize % 2 ^ 32)
        ((), buffer) := by
    refine Prog.onFirst_eq_ok.mpr ⟨?_, rfl⟩
    unfold walkSector
    rw [Prog.bind_run_ok (walkBlock_run sized small readable)]
    exact shl32_run shift ()
  unfold walkFileBlock
  rw [Prog.bind_run_ok lookup]
  unfold walkStore
  split
  · have ends := exact'.blockend_eq inside
    have skip := exact'.skipfirst_le inside
    have fits : ¬part.len ≤ treeBlock image part range.node i *
        2 ^ range.node.data.log2Ext2BlockSize % 2 ^ 32 * 512 + range.skipfirst i +
          (range.blockend i + 2 ^ 32 - range.skipfirst i) % 2 ^ 32 := by
      have block : (treeBlock image part range.node i + 1) * range.node.data.blockBytes < part.len :=
        readable.block
      rw [Nat.succ_mul] at block
      rw [sector_bytes sized readable.plain.block]
      omega
    rw [walkRead, if_neg fits]
    exact ⟨_, rfl⟩
  · exact ⟨_, rfl⟩

theorem walkFileBlocks_run {range : Range} (exact' : range.Exact) (sized : BlockSized range.node.data)
    {count i : Nat} (place : Nat) (buffer : Buffer) (rest : i + count = range.blockcnt)
    (readable : ∀ k, i ≤ k → k < range.blockcnt → ReadableBlock image part range.node k) :
    ∃ after, walkFileBlocks image part range count i place ((), buffer) = .ok () after := by
  unfold walkFileBlocks
  induction count generalizing i place buffer with
  | zero => exact ⟨_, rfl⟩
  | succ count ih =>
      have inside : i < range.blockcnt := by omega
      obtain ⟨⟨_, middle⟩, block⟩ := walkFileBlock_run exact' place buffer sized inside
        (readable i (Nat.le_refl i) inside)
      have next : i + 1 + count = range.blockcnt := by omega
      obtain ⟨after, blocks⟩ := ih (place + (range.blocksize - range.skipfirst i)) middle next
        fun k lower upper => readable k (by omega) upper
      exact ⟨after, (Prog.bind_run_ok block).trans blocks⟩

/-- Reading bytes of a readable file succeeds, and stores them. -/
theorem walkFile_run {pos len : Nat} (buffer : Buffer) (readable : Readable image part node)
    (inside : pos + len ≤ node.inode.size) :
    ∃ after, walkFile image part node pos len ((), buffer) = .ok () after ∧
      HoldsFile image part node pos len after.2 := by
  have cut : min len node.inode.size = len := by omega
  have bound := readable.bound
  have exact' : (fileRange node pos len node.data.blockBytes).Exact := fileRange_exact (by omega)
  have blocks : ∀ k, k < (fileRange node pos len node.data.blockBytes).blockcnt →
      ReadableBlock image part node k := by
    intro k upper
    have starts := exact'.lt_blockcnt.mp upper
    simp only [fileRange, cut] at starts
    exact readable.blocks k (by omega)
  obtain ⟨after, run⟩ := walkFileBlocks_run exact' readable.sized 0 buffer
    (Nat.add_sub_cancel' (fileRange_start exact')) fun k _ upper => blocks k upper
  have size : Prog.onFirst (ext2BlockSizeInt node.data) ((), buffer) =
      (.ok node.data.blockBytes ((), buffer) : Outcome QuikErr (Unit × Buffer) Nat) :=
    Prog.onFirst_eq_ok.mpr ⟨ext2BlockSizeInt_run readable.sized (), rfl⟩
  have whole : walkFile image part node pos len ((), buffer) = .ok () after := by
    unfold walkFile
    rw [Prog.bind_run_ok size]
    exact run
  have plain : PlainRange image part node pos (min len node.inode.size) := by
    intro k _ upper
    exact (readable.blocks k (by omega)).plain
  have holds := walkFile_holds (by omega) plain whole
  rw [cut] at holds
  exact ⟨after, whole, holds⟩

theorem BlockSized.unmarked {data : Ext2Data} (sized : BlockSized data) : data.log2Ext2BlockSize ≠ 0 := by
  rw [sized.shift]
  exact Nat.succ_ne_zero _

/-- The same with caches, on a machine that serves every read. -/
theorem readFresh_run {machine : Machine} {fs : Fs} {pos len : Nat} (fixed : machine.Fixed image)
    (reliable : machine.Reliable) (warm : Warm image fs fs) (readable : Readable image fs.part node)
    (inside : pos + len ≤ node.inode.size) :
    ∃ buffer after, readFresh machine node pos len fs = .ok buffer after ∧ Warm image fs after ∧
      walkFile image fs.part node pos len ((), .blank) = .ok () ((), buffer) := by
  obtain ⟨⟨_, buffer⟩, walk, -⟩ := walkFile_run .blank readable inside
  have agree := readFile_agrees fixed (.inr reliable : False ∨ machine.Reliable) node
    (.inr readable.sized.unmarked) pos len (fs, .blank) ((), .blank) ⟨warm, rfl⟩
  rw [walk] at agree
  obtain ⟨⟨after, same⟩, run, -, after', rfl⟩ := agree.of_ok_right
  exact ⟨same, after, Prog.scratch_eq_ok.mpr run, after', walk⟩

end Blocks

end IQuik.Ext2
