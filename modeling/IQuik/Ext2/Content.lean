import IQuik.Ext2.Walk

namespace IQuik.Ext2

open IQuik.Data IQuik.Program IQuik.Storage

/-! # The contents of a file

A file is the tree of blocks under its inode. A zero pointer anywhere in the
tree stands for zeros.
-/

section Tree

variable (image : Nat → Image) (part : Part) (node : Node)

/-- The bytes of the partition from a block on. -/
def blockImage (data : Ext2Data) (block : Nat) : Image := fun offset =>
  volume image part (block * data.blockBytes + offset)

/-- Entry `index` of a block of pointers; a hole has zero pointers only. -/
def treeEntry (data : Ext2Data) (block index : Nat) : Nat :=
  if block = 0 then 0 else (blockImage image part data block).le32 (4 * index)

/-- The block with the pointers to the double-indirect block `i`. -/
def treeRow (i : Nat) : Nat :=
  let perblock := node.data.blockBytes / 4
  treeEntry image part node.data node.inode.doubleIndirBlock ((i - (12 + perblock)) / perblock)

/-- Block `i` of the file, zero for a hole. -/
def treeBlock (i : Nat) : Nat :=
  let perblock := node.data.blockBytes / 4
  if i < 12 then node.inode.dirBlock i
  else if i < 12 + perblock then treeEntry image part node.data node.inode.indirBlock (i - 12)
  else treeEntry image part node.data (treeRow image part node i) ((i - (12 + perblock)) % perblock)

/-- Byte `j` of the file. -/
def fileByte (j : Nat) : UInt8 :=
  let block := treeBlock image part node (j / node.data.blockBytes)
  if block = 0 then 0 else blockImage image part node.data block (j % node.data.blockBytes)

/-- The sectors of a block have 32-bit numbers. -/
def Addressable (data : Ext2Data) (block : Nat) : Prop := block * 2 ^ data.log2Ext2BlockSize < 2 ^ 32

/-- A pointer block that exists and can be addressed. -/
def PointerBlock (data : Ext2Data) (block : Nat) : Prop := block ≠ 0 ∧ Addressable data block

/-- Block `i` can be addressed, and no pointer block on the way to it is a hole. -/
structure PlainBlock (i : Nat) : Prop where
  block : Addressable node.data (treeBlock image part node i)
  single : 12 ≤ i → i < 12 + node.data.blockBytes / 4 →
    PointerBlock node.data node.inode.indirBlock
  double : 12 + node.data.blockBytes / 4 ≤ i →
    PointerBlock node.data node.inode.doubleIndirBlock ∧
      PointerBlock node.data (treeRow image part node i)

/-- The blocks that byte `pos` and the `len - 1` bytes after it lie in are plain. -/
def PlainRange (pos len : Nat) : Prop :=
  ∀ i, pos / node.data.blockBytes ≤ i → i * node.data.blockBytes < pos + len →
    PlainBlock image part node i

end Tree

variable {image : Nat → Image} {part : Part} {node : Node}

/-- A shift count that the language allows is the logarithm of a block size in
sectors. -/
theorem blockBytes_eq {data : Ext2Data} (shift : data.log2Ext2BlockSize < 32) :
    data.blockBytes = 2 ^ data.log2Ext2BlockSize * 512 := by
  have logs : data.log2Bytes = data.log2Ext2BlockSize + 9 := by
    unfold Ext2Data.log2Bytes
    unfold Ext2Data.log2Ext2BlockSize at shift ⊢
    omega
  rw [Ext2Data.blockBytes, logs, Nat.pow_add]

theorem sector_eq {data : Ext2Data} {block sector : Nat} (addressable : Addressable data block)
    (shifted : sector = block * 2 ^ data.log2Ext2BlockSize % 2 ^ 32) :
    sector = block * 2 ^ data.log2Ext2BlockSize := by
  rw [shifted, Nat.mod_eq_of_lt addressable]

/-- The sectors of an addressable block hold its bytes. -/
theorem sectorImage_eq {data : Ext2Data} {block sector byteOffset : Nat}
    (shift : data.log2Ext2BlockSize < 32) (addressable : Addressable data block)
    (shifted : sector = block * 2 ^ data.log2Ext2BlockSize % 2 ^ 32) (offset : Nat) :
    sectorImage image part sector byteOffset offset =
      blockImage image part data block (byteOffset + offset) := by
  rw [sector_eq addressable shifted]
  simp only [sectorImage, blockImage, blockBytes_eq shift, Nat.mul_assoc, Nat.add_assoc]

theorem sector_zero {data : Ext2Data} {block sector : Nat} (addressable : Addressable data block)
    (shifted : sector = block * 2 ^ data.log2Ext2BlockSize % 2 ^ 32) : sector = 0 ↔ block = 0 := by
  rw [sector_eq addressable shifted, Nat.mul_eq_zero]
  exact ⟨fun zero => zero.resolve_right (Nat.ne_of_gt (Nat.two_pow_pos _)), .inl⟩

/-- A lookup without caches of an entry of a pointer block. -/
theorem walkEntry_eq_ok {data : Ext2Data} {block sector index value : Nat}
    (shift : data.log2Ext2BlockSize < 32) (pointer : PointerBlock data block)
    (shifted : sector = block * 2 ^ data.log2Ext2BlockSize % 2 ^ 32)
    (found : walkEntry image part data.blockBytes sector index () = .ok value ()) :
    value = treeEntry image part data block index := by
  unfold walkEntry at found
  split at found
  · cases found
  · cases found
    rw [treeEntry, if_neg pointer.1]
    exact Image.le32_congr fun offset _ _ => by
      rw [sectorImage_eq shift pointer.2 shifted, Nat.zero_add]

/-- On the way to a plain block the walk finds what the tree has. -/
theorem walkBlock_eq_ok {i block : Nat} (plain : PlainBlock image part node i)
    (found : walkBlock image part node i () = .ok block ()) :
    block = treeBlock image part node i := by
  unfold walkBlock at found
  obtain ⟨blksz, _, size, found⟩ := Prog.bind_eq_ok.mp found
  obtain ⟨-, rfl, -⟩ := ext2BlockSizeInt_eq_ok.mp size
  obtain ⟨_, _, -, found⟩ := Prog.bind_eq_ok.mp found
  unfold treeBlock
  by_cases direct : i < 12
  · rw [if_pos direct] at found ⊢
    cases found
    rfl
  rw [if_neg direct] at found ⊢
  by_cases single : i < 12 + node.data.blockBytes / 4
  · rw [if_pos single] at found ⊢
    obtain ⟨sector, _, shift, found⟩ := Prog.bind_eq_ok.mp found
    obtain ⟨count, shifted, -⟩ := shl32_eq_ok.mp shift
    exact walkEntry_eq_ok count (plain.single (Nat.le_of_not_lt direct) single) shifted found
  rw [if_neg single] at found ⊢
  obtain ⟨pointer, row⟩ := plain.double (Nat.le_of_not_lt single)
  obtain ⟨_, _, -, found⟩ := Prog.bind_eq_ok.mp found
  split at found
  · obtain ⟨sector, _, shift, found⟩ := Prog.bind_eq_ok.mp found
    obtain ⟨count, shifted, -⟩ := shl32_eq_ok.mp shift
    obtain ⟨entry, _, first, found⟩ := Prog.bind_eq_ok.mp found
    have entries := walkEntry_eq_ok count pointer shifted first
    obtain ⟨sector', _, shift', found⟩ := Prog.bind_eq_ok.mp found
    obtain ⟨-, shifted', -⟩ := shl32_eq_ok.mp shift'
    rw [entries] at shifted'
    exact walkEntry_eq_ok count row shifted' found
  · cases found

theorem walkSector_eq_ok {i sector : Nat} (plain : PlainBlock image part node i)
    (found : walkSector image part node i () = .ok sector ()) :
    node.data.log2Ext2BlockSize < 32 ∧
      sector = treeBlock image part node i * 2 ^ node.data.log2Ext2BlockSize % 2 ^ 32 := by
  obtain ⟨blknr, _, found, shift⟩ := Prog.bind_eq_ok.mp found
  obtain ⟨count, shifted, -⟩ := shl32_eq_ok.mp shift
  rw [walkBlock_eq_ok plain found] at shifted
  exact ⟨count, shifted⟩

section Blocks

variable {range : Range}

/-- `blockcnt` and `blockend` as the loop means them, when the sum of position,
length and block size does not wrap around. -/
structure Range.Exact (range : Range) : Prop where
  blocksize : range.blocksize = range.node.data.blockBytes
  blockcnt : range.blockcnt = (range.pos + range.len + range.blocksize - 1) / range.blocksize
  bound : range.pos + range.len + range.blocksize ≤ 2 ^ 32

theorem Range.Exact.positive (exact' : range.Exact) : 0 < range.blocksize := by
  rw [exact'.blocksize]
  exact range.node.data.blockBytes_pos

theorem Range.skipfirst_lt (positive : 0 < range.blocksize) (i : Nat) :
    range.skipfirst i < range.blocksize := by
  unfold Range.skipfirst
  split
  · exact Nat.mod_lt _ positive
  · exact positive

theorem Range.Exact.lt_blockcnt (exact' : range.Exact) {i : Nat} :
    i < range.blockcnt ↔ i * range.blocksize < range.pos + range.len := by
  have positive := exact'.positive
  rw [exact'.blockcnt, ← Nat.succ_le_iff, Nat.le_div_iff_mul_le positive, Nat.succ_mul]
  omega

/-- The end of the range in block `i`. -/
theorem Range.Exact.blockend_eq (exact' : range.Exact) {i : Nat} (inside : i < range.blockcnt) :
    range.blockend i = min range.blocksize (range.pos + range.len - i * range.blocksize) := by
  have positive := exact'.positive
  have bound := exact'.bound
  have starts := exact'.lt_blockcnt.mp inside
  unfold Range.blockend
  by_cases last : i = range.blockcnt - 1
  · have ends : ¬i + 1 < range.blockcnt := by omega
    rw [exact'.lt_blockcnt, Nat.succ_mul] at ends
    have whole : (range.len + range.pos) % 2 ^ 32 = range.pos + range.len := by omega
    rw [if_pos last, whole]
    obtain ⟨rest, split⟩ := Nat.exists_eq_add_of_le (Nat.le_of_lt starts)
    simp only [split, Nat.add_sub_cancel_left, Nat.mul_comm i, Nat.mul_add_mod]
    rw [split] at ends starts
    rcases Nat.lt_or_eq_of_le (show rest ≤ range.blocksize by omega) with part | rfl
    · rw [Nat.mod_eq_of_lt part, if_neg (by omega)]
      omega
    · rw [Nat.mod_self, if_pos rfl, Nat.min_self]
  · have more : i + 1 < range.blockcnt := by omega
    rw [exact'.lt_blockcnt, Nat.succ_mul] at more
    rw [if_neg last]
    omega

/-- Every block of the range ends behind the bytes that are skipped. -/
theorem Range.Exact.skipfirst_le (exact' : range.Exact) {i : Nat} (inside : i < range.blockcnt) :
    range.skipfirst i ≤ range.blockend i := by
  have ends := exact'.blockend_eq inside
  have split := Nat.div_add_mod' range.pos range.blocksize
  unfold Range.skipfirst
  split
  · rename_i first
    have rest := Nat.mod_lt range.pos exact'.positive
    rw [← first] at split
    omega
  · exact Nat.zero_le _

/-- What one iteration has stored when it returns. -/
theorem walkFileBlock_eq_ok {i place : Nat} {buffer : Buffer} {after : Unit × Buffer}
    (plain : PlainBlock image part range.node i)
    (stored : walkFileBlock image part range i place ((), buffer) = .ok () after) :
    after.2 =
      if treeBlock image part range.node i = 0 then
        buffer.store place (range.blocksize - range.skipfirst i) fun _ => 0
      else
        buffer.store place ((range.blockend i + 2 ^ 32 - range.skipfirst i) % 2 ^ 32) fun offset =>
          blockImage image part range.node.data (treeBlock image part range.node i)
            (range.skipfirst i + offset) := by
  unfold walkFileBlock at stored
  obtain ⟨sector, state, found, stored⟩ := Prog.bind_eq_ok.mp stored
  obtain ⟨found, bytes⟩ := Prog.onFirst_eq_ok.mp found
  change state.2 = buffer at bytes
  obtain ⟨count, shifted⟩ := walkSector_eq_ok plain found
  have zero := sector_zero plain.block shifted
  unfold walkStore at stored
  by_cases hole : treeBlock image part range.node i = 0
  · rw [if_neg (not_not.mpr (zero.mpr hole))] at stored
    rw [if_pos hole, ← bytes]
    cases stored
    rfl
  · rw [if_pos fun none => hole (zero.mp none)] at stored
    rw [if_neg hole, ← bytes]
    unfold walkRead at stored
    split at stored
    · cases stored
    · cases stored
      exact Buffer.store_congr fun offset _ => sectorImage_eq count plain.block shifted offset

/-- The first `count` bytes of a buffer are those of the file from `pos` on. -/
def HoldsFile (image : Nat → Image) (part : Part) (node : Node) (pos count : Nat)
    (buffer : Buffer) : Prop :=
  buffer.Holds 0 count fun index => fileByte image part node (pos + index)

/-- Where block `i` goes: the bytes of the file before it, from `pos` on, lie
below `place`. -/
def Range.At (range : Range) (i place : Nat) : Prop :=
  place + range.pos = i * range.blocksize + range.skipfirst i

theorem Range.At.next (positive : 0 < range.blocksize) {i place : Nat} (at' : range.At i place)
    (first : range.pos / range.blocksize ≤ i) :
    range.At (i + 1) (place + (range.blocksize - range.skipfirst i)) := by
  have later : range.skipfirst (i + 1) = 0 := if_neg (by omega)
  have skip := Range.skipfirst_lt positive i
  unfold Range.At at at' ⊢
  rw [later, Nat.succ_mul]
  omega

theorem fileByte_eq {i offset : Nat} (inside : offset < node.data.blockBytes) :
    fileByte image part node (i * node.data.blockBytes + offset) =
      if treeBlock image part node i = 0 then 0
      else blockImage image part node.data (treeBlock image part node i) offset := by
  have block : (i * node.data.blockBytes + offset) / node.data.blockBytes = i := by
    rw [Nat.mul_comm, Nat.mul_add_div node.data.blockBytes_pos, Nat.div_eq_of_lt inside, Nat.add_zero]
  simp only [fileByte, block, Nat.mul_add_mod_of_lt inside]

/-- One iteration extends what the buffer holds of the file. -/
theorem walkFileBlock_holds (exact' : range.Exact) {i place : Nat} {buffer : Buffer}
    {after : Unit × Buffer} (inside : i < range.blockcnt)
    (at' : range.At i place) (plain : PlainBlock image part range.node i)
    (holds : HoldsFile image part range.node range.pos (min range.len place) buffer)
    (stored : walkFileBlock image part range i place ((), buffer) = .ok () after) :
    HoldsFile image part range.node range.pos
      (min range.len (place + (range.blocksize - range.skipfirst i))) after.2 := by
  have positive := exact'.positive
  have bound := exact'.bound
  have ends := exact'.blockend_eq inside
  have skip := Range.skipfirst_lt positive i
  unfold Range.At at at'
  rw [walkFileBlock_eq_ok plain stored]
  intro index below
  rw [Nat.zero_add]
  beta_reduce
  rcases Nat.lt_or_ge index place with old | new
  · have byte := holds index (by omega)
    rw [Nat.zero_add] at byte
    split <;> rw [Buffer.store_outside (.inl old)] <;> exact byte
  · have byte : range.pos + index =
        i * range.node.data.blockBytes + (range.skipfirst i + (index - place)) := by
      rw [← exact'.blocksize]
      omega
    rw [byte, fileByte_eq (by rw [← exact'.blocksize]; omega)]
    split
    · rw [Buffer.store_inside new (by omega)]
    · have count : (range.blockend i + 2 ^ 32 - range.skipfirst i) % 2 ^ 32 =
          range.blockend i - range.skipfirst i := by omega
      rw [Buffer.store_inside new (by omega)]

theorem walkFileBlocks_holds (exact' : range.Exact) {count i place : Nat} {buffer : Buffer}
    {after : Unit × Buffer} (rest : i + count = range.blockcnt)
    (first : range.pos / range.blocksize ≤ i) (at' : range.At i place)
    (plain : ∀ k, i ≤ k → k < range.blockcnt → PlainBlock image part range.node k)
    (holds : HoldsFile image part range.node range.pos (min range.len place) buffer)
    (stored : walkFileBlocks image part range count i place ((), buffer) = .ok () after) :
    HoldsFile image part range.node range.pos range.len after.2 := by
  unfold walkFileBlocks at stored
  induction count generalizing i place buffer with
  | zero =>
      cases stored
      have ends : ¬i < range.blockcnt := by omega
      rw [exact'.lt_blockcnt] at ends
      unfold Range.At at at'
      rwa [Nat.min_eq_left (by omega)] at holds
  | succ count ih =>
      obtain ⟨_, state, block, stored⟩ := Prog.bind_eq_ok.mp stored
      have next := walkFileBlock_holds exact' (by omega) at' (plain i (Nat.le_refl i) (by omega))
        holds block
      exact ih (by omega) (by omega) (at'.next exact'.positive first)
        (fun k lower upper => plain k (by omega) upper) next stored

end Blocks

theorem fileRange_exact {pos len : Nat}
    (bound : pos + min len node.inode.size + node.data.blockBytes ≤ 2 ^ 32) :
    (fileRange node pos len node.data.blockBytes).Exact where
  blocksize := rfl
  blockcnt := by
    have positive := node.data.blockBytes_pos
    simp only [fileRange]
    rw [Nat.mod_eq_of_lt (by omega), Nat.add_comm pos]
  bound := bound

/-- The first block goes to the start of the buffer. -/
theorem fileRange_at (pos len blocksize : Nat) : (fileRange node pos len blocksize).At (pos / blocksize) 0 := by
  unfold Range.At Range.skipfirst
  simp only [fileRange, if_true]
  rw [Nat.zero_add, Nat.mul_comm, Nat.div_add_mod]

theorem fileRange_start {pos len : Nat}
    (exact' : (fileRange node pos len node.data.blockBytes).Exact) :
    pos / node.data.blockBytes ≤ (fileRange node pos len node.data.blockBytes).blockcnt := by
  have positive := node.data.blockBytes_pos
  rw [exact'.blockcnt]
  exact Nat.div_le_div_right (by simp only [fileRange]; omega)

/-- The loop of a read that succeeds. -/
theorem walkFile_blocks {pos len : Nat} {buffer : Buffer} {after : Unit × Buffer}
    (stored : walkFile image part node pos len ((), buffer) = .ok () after) :
    walkFileBlocks image part (fileRange node pos len node.data.blockBytes)
      ((fileRange node pos len node.data.blockBytes).blockcnt - pos / node.data.blockBytes)
      (pos / node.data.blockBytes) 0 ((), buffer) = .ok () after := by
  obtain ⟨blocksize, ⟨_, same⟩, size, blocks⟩ := Prog.bind_eq_ok.mp stored
  obtain ⟨size, rfl⟩ := Prog.onFirst_eq_ok.mp size
  obtain ⟨-, rfl, -⟩ := ext2BlockSizeInt_eq_ok.mp size
  exact blocks

/-- A read that succeeds has stored the bytes of the file. -/
theorem walkFile_holds {pos len : Nat} {buffer : Buffer} {after : Unit × Buffer}
    (bound : pos + min len node.inode.size + node.data.blockBytes ≤ 2 ^ 32)
    (plain : PlainRange image part node pos (min len node.inode.size))
    (stored : walkFile image part node pos len ((), buffer) = .ok () after) :
    HoldsFile image part node pos (min len node.inode.size) after.2 := by
  have exact' := fileRange_exact bound
  refine walkFileBlocks_holds exact' (Nat.add_sub_cancel' (fileRange_start exact')) (Nat.le_refl _)
    (fileRange_at pos len _) ?_ ?_ (walkFile_blocks stored)
  · intro k lower upper
    exact plain k lower (exact'.lt_blockcnt.mp upper)
  · intro index below
    exact absurd below (by omega)

/-- A file so large that rounding its size up to whole blocks wraps around is
read as empty. -/
theorem walkFile_wraps {buffer : Buffer} {after : Unit × Buffer}
    (wraps : 2 ^ 32 < node.inode.size + node.data.blockBytes)
    (stored : walkFile image part node 0 node.inode.size ((), buffer) = .ok () after) :
    after.2 = buffer := by
  unfold walkFile at stored
  obtain ⟨blocksize, state, size, stored⟩ := Prog.bind_eq_ok.mp stored
  obtain ⟨size, same⟩ := Prog.onFirst_eq_ok.mp size
  obtain ⟨-, rfl, -⟩ := ext2BlockSizeInt_eq_ok.mp size
  have small : node.inode.size < 2 ^ 32 := Image.le32_lt _ _
  have none : (fileRange node 0 node.inode.size node.data.blockBytes).blockcnt = 0 := by
    simp only [fileRange, Nat.min_self, Nat.add_zero]
    exact Nat.div_eq_of_lt (by omega)
  simp only [none, Nat.zero_sub] at stored
  cases stored
  exact same

end IQuik.Ext2
