import IQuik.Ext2.Frames
import IQuik.Ext2.Loads
import IQuik.Ext2.Readable

namespace IQuik.Ext2

open IQuik.Data IQuik.Program IQuik.Storage

/-! # Where an inode lies -/

variable (machine : Machine)

/-- Reads bytes of the open partition into fresh memory. -/
def readBytes (offset width : Nat) : FsProg Image := readStruct machine 0 offset width

/-- The first byte of a group descriptor, in the table behind the superblock. -/
def descriptorOffset (data : Ext2Data) (group : Nat) : Nat :=
  (data.firstDataBlock + 1) * data.blockBytes + group * 32

/-- The first byte of an inode, in the table that starts at the block `table`. -/
def inodeOffset (data : Ext2Data) (inodeSize table ino : Nat) : Nat :=
  table * data.blockBytes + (ino - 1) % data.inodesPerGroup * inodeSize

/-- Reads an inode by its place in the tables. -/
def locatedInode (data : Ext2Data) (ino : Nat) : FsProg Inode := do
  let descriptor ← readBytes machine (descriptorOffset data ((ino - 1) / data.inodesPerGroup)) 32
  let inodeSize ← Prog.view Fs.inodeSize
  let raw ← readBytes machine (inodeOffset data inodeSize (descriptor.le32 8) ino) 128
  pure { raw }

/-- The block that holds a byte of a table can be addressed. -/
def TableFits (data : Ext2Data) (table offset : Nat) : Prop :=
  Addressable data (table + offset / data.blockBytes)

/-- A read depends on the place of its first byte only. -/
theorem readStruct_eq (sector byteOffset width : Nat) :
    readStruct machine sector byteOffset width = readBytes machine (sector * 512 + byteOffset) width := by
  have last : 0 * 512 + (sector * 512 + byteOffset) + width = sector * 512 + byteOffset + width := by omega
  have place : ∀ start, 0 * 512 + start + (sector * 512 + byteOffset) =
      sector * 512 + start + byteOffset := by omega
  unfold readBytes readStruct partRead
  simp only [last, place]

section Geometry

variable {data : Ext2Data}

/-- The shifts by the logarithms of the block size have results. -/
theorem logs_of_small (small : data.log2Ext2BlockSize < 22) :
    data.log2Ext2BlockSize < 32 ∧ data.log2Bytes < 31 ∧ 512 ∣ data.blockBytes := by
  have shift : data.log2Ext2BlockSize < 32 := by omega
  refine ⟨shift, ?_, ?_⟩
  · unfold Ext2Data.log2Ext2BlockSize at small
    unfold Ext2Data.log2Bytes
    omega
  · rw [blockBytes_eq shift]
    exact Nat.dvd_mul_left _ _

/-- A byte of a table, by its block and its place in the block. -/
theorem tableByte {table offset : Nat} (small : data.log2Ext2BlockSize < 22)
    (fits : TableFits data table offset) :
    (table + offset / data.blockBytes) * 2 ^ data.log2Ext2BlockSize % 2 ^ 32 * 512 +
        offset % data.blockBytes = table * data.blockBytes + offset := by
  have split := Nat.div_add_mod' offset data.blockBytes
  rw [Nat.mod_eq_of_lt fits, Nat.mul_assoc, ← blockBytes_eq (logs_of_small small).1, Nat.add_mul]
  omega

/-- The block numbers of `int`s that can be addressed do not wrap around. -/
theorem TableFits.lt {table offset : Nat} (fits : TableFits data table offset) :
    table + offset / data.blockBytes < 2 ^ 32 := by
  apply Nat.lt_of_le_of_lt _ fits
  exact Nat.le_mul_of_pos_right _ (Nat.two_pow_pos _)

/-- Records of a size that divides the block, counted by blocks. -/
theorem record_block {count size : Nat} (whole : count * size = data.blockBytes) (index : Nat) :
    index * size / data.blockBytes = index / count ∧
      index * size % data.blockBytes = index % count * size := by
  have positive := data.blockBytes_pos
  have size' : 0 < size := Nat.pos_of_ne_zero fun none => by simp [none] at whole; omega
  rw [← whole]
  exact ⟨Nat.mul_div_mul_right _ _ size', Nat.mul_mod_mul_right _ _ _⟩

theorem blockgroup_located (small : data.log2Ext2BlockSize < 22) {group : Nat}
    (fits : TableFits data (data.firstDataBlock + 1) (group * 32)) :
    ext2fsBlockgroup machine data group = readBytes machine (descriptorOffset data group) 32 := by
  obtain ⟨shift, bytes, sectors⟩ := logs_of_small small
  have positive := data.blockBytes_pos
  have whole : data.blockBytes / 32 * 32 = data.blockBytes := by omega
  have some : data.blockBytes / 32 ≠ 0 := by omega
  obtain ⟨block, rest⟩ := record_block whole group
  funext fs
  unfold ext2fsBlockgroup
  rw [Prog.bind_run_ok (ext2BlockSize_eq_ok.mpr ⟨Nat.lt_succ_of_lt bytes, rfl, rfl⟩), Prog.arith_pos some, Prog.pure_bind,
    Prog.bind_run_ok (shl32_run shift fs), readStruct_eq, ← block, Nat.mod_eq_of_lt fits.lt, ← rest,
    tableByte small fits]
  rfl

/-- The remainder within the group and that within the block are compatible,
since a group fills whole blocks. -/
theorem index_in_block {count size ino : Nat} (whole : count * size = data.blockBytes)
    (tables : data.blockBytes ∣ data.inodesPerGroup * size) :
    ino % data.inodesPerGroup % count = ino % count := by
  have positive := data.blockBytes_pos
  have size' : 0 < size := Nat.pos_of_ne_zero fun none => by simp [none] at whole; omega
  rw [← whole] at tables
  exact Nat.mod_mod_of_dvd _ (Nat.dvd_of_mul_dvd_mul_right size' tables)

end Geometry

/-- `ext2fs_read_inode` reads the bytes of the inode by its place in the tables,
if inodes fill blocks and groups fill blocks of inodes. -/
theorem readInode_located {data : Ext2Data} {ino : Nat} {fs : Fs}
    (small : data.log2Ext2BlockSize < 22) (groups : 0 < data.inodesPerGroup)
    (inodes : fs.inodeSize ∣ data.blockBytes)
    (tables : data.blockBytes ∣ data.inodesPerGroup * fs.inodeSize)
    (first : 1 ≤ ino) (signed : ino < 2 ^ 31)
    (descriptorFits : TableFits data (data.firstDataBlock + 1) ((ino - 1) / data.inodesPerGroup * 32))
    (inodeFits : ∀ descriptor after,
      readBytes machine (descriptorOffset data ((ino - 1) / data.inodesPerGroup)) 32 fs =
        .ok descriptor after →
      TableFits data (descriptor.le32 8) ((ino - 1) % data.inodesPerGroup * fs.inodeSize)) :
    ext2fsReadInode machine data ino fs = locatedInode machine data ino fs := by
  obtain ⟨shift, bytes, -⟩ := logs_of_small small
  have positive := data.blockBytes_pos
  have index : (ino + (2 ^ 32 - 1)) % 2 ^ 32 = ino - 1 := by omega
  unfold ext2fsReadInode locatedInode
  simp only [index]
  rw [Prog.arith_pos (Nat.ne_of_gt groups), Prog.pure_bind, blockgroup_located machine small descriptorFits]
  cases read : readBytes machine (descriptorOffset data ((ino - 1) / data.inodesPerGroup)) 32 fs with
  | error code after => rw [Prog.bind_run_error read, Prog.bind_run_error read]
  | fault => rw [Prog.bind_run_fault read, Prog.bind_run_fault read]
  | undefined => rw [Prog.bind_run_undefined read, Prog.bind_run_undefined read]
  | unfinished => rw [Prog.bind_run_unfinished read, Prog.bind_run_unfinished read]
  | ok descriptor after =>
      have same : after.inodeSize = fs.inodeSize := (readStruct_near _ _ _ fs after (by rw [← readBytes, read]; rfl)).inodeSize
      have fits := inodeFits descriptor after read
      have whole : data.blockBytes / fs.inodeSize * fs.inodeSize = data.blockBytes := Nat.div_mul_cancel inodes
      have size : fs.inodeSize ≠ 0 := fun none => by rw [none] at whole; omega
      have perBlock : data.blockBytes / fs.inodeSize ≠ 0 := fun none => by rw [none] at whole; omega
      have unsigned : signedRem (ino - 1) (data.blockBytes / fs.inodeSize) =
          (ino - 1) % (data.blockBytes / fs.inodeSize) := if_pos (by omega)
      obtain ⟨block, rest⟩ := record_block whole ((ino - 1) % data.inodesPerGroup)
      rw [index_in_block whole tables] at rest
      have offset : signedRem (ino - 1) (data.blockBytes / fs.inodeSize) * fs.inodeSize % 2 ^ 32 =
          (ino - 1) % data.inodesPerGroup * fs.inodeSize % data.blockBytes := by
        have below := Nat.mod_lt ((ino - 1) % data.inodesPerGroup * fs.inodeSize) positive
        have bounded : data.blockBytes < 2 ^ 31 := Nat.pow_lt_pow_right (by decide) bytes
        rw [unsigned, ← rest, Nat.mod_eq_of_lt (by omega)]
      rw [Prog.bind_run_ok read, Prog.bind_run_ok read,
        Prog.bind_run_ok (ext2BlockSize_eq_ok.mpr ⟨Nat.lt_succ_of_lt bytes, rfl, rfl⟩), Prog.view_bind, Prog.view_bind, same,
        Prog.arith_pos size, Prog.pure_bind, Prog.arith_pos perBlock, Prog.pure_bind,
        Prog.bind_run_ok (shl32_run shift after), readStruct_eq, ← block, Nat.mod_eq_of_lt fits.lt, offset,
        tableByte small fits]
      rfl

/-- The volume of the short file, and the first partition of its disk. -/
def shortVolume : Ext2Data :=
  { sblock := fun offset => shortFile (32768 + 1024 + offset), rootInode := { raw := fun _ => 0 } }

def shortOpen : Fs :=
  { Fs.startUp with part := { Part.zero with start := 32768, len := 32768 }, inodeSize := 128 }

theorem readInode_located_sample :
    ext2fsReadInode (diskMachine shortFile) shortVolume 3 shortOpen =
      locatedInode (diskMachine shortFile) shortVolume 3 shortOpen := by
  have table : ((readBytes (diskMachine shortFile) (descriptorOffset shortVolume
      ((3 - 1) / shortVolume.inodesPerGroup)) 32 shortOpen).value?.map fun descriptor =>
        descriptor.le32 8) = some 3 := by decide +kernel
  refine readInode_located (diskMachine shortFile) (by decide +kernel) (by decide +kernel)
    (by decide +kernel) (by decide +kernel) (by decide) (by decide) ?_ ?_
  · unfold TableFits Addressable
    decide +kernel
  · intro descriptor after read
    rw [read] at table
    have third : descriptor.le32 8 = 3 := Option.some.inj table
    rw [third]
    unfold TableFits Addressable
    decide +kernel

end IQuik.Ext2
