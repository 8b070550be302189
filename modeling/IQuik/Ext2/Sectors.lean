import IQuik.Ext2.Loads
import IQuik.Ext2.BlockMap

namespace IQuik.Ext2

open IQuik.Data IQuik.Program IQuik.Storage

/-! # From block numbers to sectors

All that the code reads of a volume, it reads at a block number that is shifted to
a sector number in 32 bits.
-/

variable (machine : Machine) (data : Ext2Data)

/-- `block << LOG2_EXT2_BLOCK_SIZE (data)`. -/
def sectorOf (block : Nat) : Nat := block * 2 ^ data.log2Ext2BlockSize % 2 ^ 32

/-- Reads `byteLen` bytes of a block. -/
def readNumbered (block byteOffset byteLen place : Nat) : FillProg Unit := do
  let sector ← Prog.onFirst (shl32 block data.log2Ext2BlockSize)
  partRead machine sector byteOffset byteLen place

/-- Stores block `i` of a file, which has the number `block`. -/
def storeNumbered (range : Range) (block i place : Nat) : FillProg Unit := do
  let sector ← Prog.onFirst (shl32 block range.node.data.log2Ext2BlockSize)
  storeBlock machine range i place sector

section Places

variable {machine data}

theorem readStruct_numbered (block byteOffset width : Nat) :
    (shl32 block data.log2Ext2BlockSize >>= fun sector => readStruct machine sector byteOffset width) =
      (Prog.scratch Buffer.blank (readNumbered machine data block byteOffset width 0) >>= fun buffer =>
        pure buffer.image) := by
  unfold readStruct readNumbered shl32
  by_cases shift : data.log2Ext2BlockSize < 32
  · rw [Prog.arith_pos shift]
    rfl
  · rw [Prog.arith_neg shift]
    rfl

/-- The read of a group descriptor. -/
theorem blockgroup_numbered (group : Nat) :
    ext2fsBlockgroup machine data group = (do
      let blksz ← ext2BlockSize data
      Prog.arith (blksz / 32 ≠ 0)
      let buffer ← Prog.scratch Buffer.blank (readNumbered machine data
        ((data.firstDataBlock + 1 + group / (blksz / 32)) % 2 ^ 32) (group % (blksz / 32) * 32) 32 0)
      pure buffer.image) := by
  unfold ext2fsBlockgroup
  simp only [← readStruct_numbered]

/-- The read of an inode, in the block that follows from its group descriptor. -/
theorem readInode_numbered (ino : Nat) :
    ext2fsReadInode machine data ino = (do
      let ino := (ino + (2 ^ 32 - 1)) % 2 ^ 32
      Prog.arith (data.inodesPerGroup ≠ 0)
      let blkgrp ← ext2fsBlockgroup machine data (ino / data.inodesPerGroup)
      let blksz ← ext2BlockSize data
      let inodeSize ← Prog.view Fs.inodeSize
      Prog.arith (inodeSize ≠ 0)
      let inodesPerBlock := blksz / inodeSize
      Prog.arith (inodesPerBlock ≠ 0)
      let raw ← (do
        let buffer ← Prog.scratch Buffer.blank (readNumbered machine data
          ((blkgrp.le32 8 + ino % data.inodesPerGroup / inodesPerBlock) % 2 ^ 32)
          (signedRem ino inodesPerBlock * inodeSize % 2 ^ 32) 128 0)
        pure buffer.image)
      pure { raw }) := by
  unfold ext2fsReadInode
  simp only [← readStruct_numbered, Prog.bind_assoc]

/-- The read of a pointer block into a cache. -/
theorem fillIndir_numbered (slot : Slot) (blksz block : Nat) :
    (shl32 block data.log2Ext2BlockSize >>= fun sector => fillIndir machine slot blksz sector) = (do
      Prog.inPlace (fun fs => ((slot.get fs).block).getD .blank)
        (fun buffer fs => slot.put { slot.get fs with block := some buffer } fs)
        (readNumbered machine data block 0 blksz 0)
      Prog.update fun fs => slot.put { slot.get fs with blkno := sectorOf data block } fs) := by
  unfold fillIndir readNumbered shl32
  by_cases shift : data.log2Ext2BlockSize < 32
  · rw [Prog.arith_pos shift]
    rfl
  · rw [Prog.arith_neg shift]
    rfl

/-- The read of a block of a file, with the number that its map has. -/
theorem readFileBlock_numbered (range : Range) (i place : Nat) :
    readFileBlock machine range i place =
      (Prog.onFirst (ext2fsReadBlock machine range.node i) >>= fun block => storeNumbered machine range block i place) := by
  unfold readFileBlock fileSector storeNumbered
  rw [Prog.onFirst_bind, Prog.bind_assoc]

end Places

/-- A read of a part of a block is refused, or stores bytes of that block. -/
def StoresBlock (image : Nat → Image) (part : Part) (block byteOffset byteLen place : Nat) (buffer : Buffer)
    (outcome : Outcome QuikErr (Fs × Buffer) Unit) : Prop :=
  outcome.code? = some .partBeyond ∨ ∃ count after, outcome.state? = some after ∧
    (outcome.value? = some () → count = byteLen) ∧
    after.2 = buffer.store place count fun index => blockImage image part data block (byteOffset + index)

/-- Whatever is on the disk, `program` is refused or stores bytes of a block. -/
def Straight (part : Part) (block byteOffset byteLen place : Nat) (program : Machine → FillProg Unit) : Prop :=
  ∀ machine image fs buffer, machine.Fixed image → fs.part = part →
    StoresBlock data image part block byteOffset byteLen place buffer (program machine (fs, buffer))

variable {machine data} {part : Part} {block byteOffset byteLen place : Nat}

end IQuik.Ext2
