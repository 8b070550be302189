import IQuik.Data.Bytes
import IQuik.Data.Errors
import IQuik.Data.Strings
import IQuik.Program.Outcome

namespace IQuik.Storage

open IQuik.Data IQuik.Program

/-! # What the file code reads and writes

The globals of `file.c` and `ext2fs.c`, and the two things outside the loader
that decide how their functions behave: the firmware's disks and the heap.
-/

/-- The answer of the firmware to a `read`: the number it returns, which is how
many bytes it delivered, and the bytes. -/
structure Delivery where
  count : Nat
  bytes : Image

namespace Delivery

/-- How much of a buffer of `nbytes` has been written. A number above the request,
such as `-1`, is that of a read that failed. -/
def stored (answer : Delivery) (nbytes : Nat) : Nat :=
  if answer.count ≤ nbytes then answer.count else 0

variable {answer : Delivery} {nbytes : Nat}

theorem stored_le : answer.stored nbytes ≤ nbytes := by
  unfold stored
  split
  · assumption
  · exact Nat.zero_le nbytes

theorem count_eq_stored (some : 0 < answer.stored nbytes) : answer.count = answer.stored nbytes := by
  unfold stored at some ⊢
  split at some
  · rw [if_pos ‹_›]
  · exact absurd some (Nat.lt_irrefl 0)

theorem stored_whole (whole : answer.count = nbytes) : answer.stored nbytes = nbytes := by
  rw [stored, if_pos (Nat.le_of_eq whole), whole]

theorem stored_short (some : nbytes ≠ 0) (short : answer.count ≠ nbytes) : answer.stored nbytes < nbytes := by
  unfold stored
  split
  · omega
  · exact Nat.pos_of_ne_zero some

end Delivery

/-- The surroundings of the file code. The answers may change from one call to
the next; the calls are numbered. -/
structure Machine where
  /-- The handle `open` gives for a device path, or its refusal. -/
  openDevice : Nat → Str → Option Nat
  /-- What `seek` and `read` deliver: call number, handle, byte offset, length. -/
  read : Nat → Nat → Nat → Nat → Delivery
  /-- Whether the heap has room: call number, size. -/
  grants : Nat → Nat → Bool
  /-- `PROM_NW_FULL_DISK` of `prom_flags`. -/
  nwFullDisk : Bool

/-- `part_t`; `valid` and `mounted` are the bits of `flags`. -/
structure Part where
  partno : Nat
  dev : Nat
  start : Nat
  len : Nat
  valid : Bool
  mounted : Bool
  devname : Str

/-- What `memset (part, 0, sizeof (*part))` leaves. -/
def Part.zero : Part :=
  { partno := 0, dev := 0, start := 0, len := 0, valid := false, mounted := false, devname := [] }

/-- `struct ext2_inode`, the 128 bytes of it as they were read. -/
structure Inode where
  raw : Image

namespace Inode

def mode (inode : Inode) : Nat := inode.raw.le16 0
def size (inode : Inode) : Nat := inode.raw.le32 4
/-- `b.blocks.dir_blocks`. -/
def dirBlock (inode : Inode) (index : Nat) : Nat := inode.raw.le32 (40 + 4 * index)
def indirBlock (inode : Inode) : Nat := inode.raw.le32 88
def doubleIndirBlock (inode : Inode) : Nat := inode.raw.le32 92
/-- `b.symlink`. -/
def symlink (inode : Inode) : List UInt8 := inode.raw.list 40 60

end Inode

/-- `struct ext2_data`: the superblock, and the inode of `diropen`. Its `part`
is always the static part of `file.c`. -/
structure Ext2Data where
  sblock : Image
  rootInode : Inode

namespace Ext2Data

def firstDataBlock (data : Ext2Data) : Nat := data.sblock.le32 20
def log2BlockSize (data : Ext2Data) : Nat := data.sblock.le32 24
def inodesPerGroup (data : Ext2Data) : Nat := data.sblock.le32 40
/-- `LOG2_EXT2_BLOCK_SIZE`: the shift from a block number to a sector number. -/
def log2Ext2BlockSize (data : Ext2Data) : Nat := (data.log2BlockSize + 1) % 2 ^ 32
/-- `LOG2_BLOCK_SIZE`: the shift in `EXT2_BLOCK_SIZE`. -/
def log2Bytes (data : Ext2Data) : Nat := (data.log2BlockSize + 10) % 2 ^ 32

/-- The bytes in a block. -/
def blockBytes (data : Ext2Data) : Nat := 2 ^ data.log2Bytes

theorem blockBytes_pos (data : Ext2Data) : 0 < data.blockBytes := Nat.two_pow_pos _

end Ext2Data

/-- `struct ext2fs_node`. -/
structure Node where
  data : Ext2Data
  inode : Inode
  ino : Nat
  inodeRead : Bool

/-- `&data->diropen` after a mount. -/
def Ext2Data.diropen (data : Ext2Data) : Node :=
  { data, inode := data.rootInode, ino := 2, inodeRead := true }

/-- `indirN_block`, `indirN_size` and `indirN_blkno`. The block is a null
pointer or a buffer; the block number `-1` is compared as an unsigned number. -/
structure IndirCache where
  block : Option Buffer
  size : Nat
  blkno : Nat

def noBlkno : Nat := 0xFFFFFFFF

def IndirCache.empty : IndirCache := { block := none, size := 0, blkno := noBlkno }

/-- The globals. -/
structure Fs where
  part : Part
  root : Option Ext2Data
  file : Option Node
  symlinknest : Nat
  indir1 : IndirCache
  indir2 : IndirCache
  inodeSize : Nat
  /-- How many calls were made to the firmware, and to the heap. -/
  calls : Nat
  mallocs : Nat
  /-- The device handles opened and not closed. -/
  handles : List Nat
  /-- How many `ext2_data` blocks were allocated and not freed. -/
  dataBlocks : Nat

/-- The globals when the loader starts. -/
def Fs.startUp : Fs :=
  { part := .zero, root := none, file := none, symlinknest := 0, indir1 := .empty,
    indir2 := .empty, inodeSize := 0, calls := 0, mallocs := 0, handles := [], dataBlocks := 0 }

abbrev FsProg := Prog QuikErr Fs

/-- A program that also stores into a buffer. -/
abbrev FillProg := Prog QuikErr (Fs × Buffer)

variable (machine : Machine)

/-- `malloc`, as far as its result decides what happens next. -/
def malloc (size : Nat) : FsProg Unit := fun fs =>
  let after := { fs with mallocs := fs.mallocs + 1 }
  if machine.grants fs.mallocs size then .ok () after else .error .noMem after

section Shifts

variable {σ : Type}

/-- The left shift of a 32-bit number by a signed one. -/
def shl32 (value count : Nat) : Prog QuikErr σ Nat := do
  Prog.arith (count < 32)
  pure (value * 2 ^ count % 2 ^ 32)

/-- The bits of `1 << count`. A shift into the sign has them too: the compiler of the
`Makefile` gives it its bits. -/
def shiftOne (count : Nat) : Prog QuikErr σ Nat := do
  Prog.arith (count < 32)
  pure (2 ^ count)

/-- `EXT2_BLOCK_SIZE`, where it is divided as an unsigned number. -/
def ext2BlockSize (data : Ext2Data) : Prog QuikErr σ Nat := shiftOne data.log2Bytes

/-- `EXT2_BLOCK_SIZE` in an `int`. The code that reads blocks and files computes with
it beyond what an `int` can hold once it is negative. -/
def ext2BlockSizeInt (data : Ext2Data) : Prog QuikErr σ Nat := do
  let size ← ext2BlockSize data
  Prog.demand (size < 2 ^ 31)
  pure size

theorem shl32_eq_ok {value count shifted : Nat} {state after : σ} :
    shl32 value count state = .ok shifted after ↔
      count < 32 ∧ shifted = value * 2 ^ count % 2 ^ 32 ∧ after = state := by
  unfold shl32
  rw [Prog.arith_bind_eq_ok, Prog.pure_eq_ok]

theorem ext2BlockSize_eq_ok {data : Ext2Data} {blksz : Nat} {state after : σ} :
    ext2BlockSize data state = .ok blksz after ↔
      data.log2Bytes < 32 ∧ blksz = data.blockBytes ∧ after = state := by
  unfold ext2BlockSize shiftOne
  rw [Prog.arith_bind_eq_ok, Prog.pure_eq_ok]
  rfl

theorem blockBytes_int_iff {data : Ext2Data} : data.blockBytes < 2 ^ 31 ↔ data.log2Bytes < 31 :=
  Nat.pow_lt_pow_iff_right (by decide)

theorem ext2BlockSizeInt_eq_ok {data : Ext2Data} {blksz : Nat} {state after : σ} :
    ext2BlockSizeInt data state = .ok blksz after ↔
      data.log2Bytes < 31 ∧ blksz = data.blockBytes ∧ after = state := by
  unfold ext2BlockSizeInt
  constructor
  · intro returned
    obtain ⟨size, middle, run, rest⟩ := Prog.bind_eq_ok.mp returned
    obtain ⟨-, rfl, rfl⟩ := ext2BlockSize_eq_ok.mp run
    rw [Prog.demand_bind_eq_ok, Prog.pure_eq_ok, blockBytes_int_iff] at rest
    exact rest
  · rintro ⟨known, rfl, rfl⟩
    rw [Prog.bind_run_ok (ext2BlockSize_eq_ok.mpr ⟨Nat.lt_succ_of_lt known, rfl, rfl⟩),
      Prog.demand_bind_eq_ok, Prog.pure_eq_ok]
    exact ⟨blockBytes_int_iff.mpr known, rfl, rfl⟩

theorem ext2BlockSizeInt_stops {data : Ext2Data} (large : ¬data.log2Bytes < 31) (state : σ) :
    (ext2BlockSizeInt data state).state? = none := by
  by_cases shift : data.log2Bytes < 32
  · unfold ext2BlockSizeInt
    rw [Prog.bind_run_ok (ext2BlockSize_eq_ok.mpr ⟨shift, rfl, rfl⟩),
      Prog.demand_neg fun small => large (blockBytes_int_iff.mp small)]
    rfl
  · unfold ext2BlockSizeInt ext2BlockSize shiftOne
    rw [Prog.arith_neg shift]
    rfl

end Shifts

end IQuik.Storage
