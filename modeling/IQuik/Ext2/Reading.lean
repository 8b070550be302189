import IQuik.Storage.Partition

namespace IQuik.Ext2

open IQuik.Data IQuik.Program IQuik.Storage

/-! # Reading inodes, blocks and files: the first half of `ext2fs.c` -/

variable (machine : Machine)

/-- Reads a structure of `width` bytes into fresh memory. -/
def readStruct (sector byteOffset width : Nat) : FsProg Image := do
  let buffer ← Prog.scratch Buffer.blank (partRead machine sector byteOffset width 0)
  pure buffer.image

/-- `ext2fs_blockgroup`; the 32 bytes of the group descriptor. -/
def ext2fsBlockgroup (data : Ext2Data) (group : Nat) : FsProg Image := do
  let blksz ← ext2BlockSize data
  let descPerBlk := blksz / 32
  Prog.arith (descPerBlk ≠ 0)
  let blkno := (data.firstDataBlock + 1 + group / descPerBlk) % 2 ^ 32
  let blkoff := group % descPerBlk * 32
  let sector ← shl32 blkno data.log2Ext2BlockSize
  readStruct machine sector blkoff 32

/-- `%` of two `int`s, the first one given as its bits and the second one
positive; the remainder has the sign of the first. -/
def signedRem (value divisor : Nat) : Nat :=
  if value < 2 ^ 31 then value % divisor
  else (2 ^ 32 - (2 ^ 32 - value) % divisor) % 2 ^ 32

def ext2fsReadInode (data : Ext2Data) (ino : Nat) : FsProg Inode := do
  let ino := (ino + (2 ^ 32 - 1)) % 2 ^ 32
  Prog.arith (data.inodesPerGroup ≠ 0)
  let blkgrp ← ext2fsBlockgroup machine data (ino / data.inodesPerGroup)
  let blksz ← ext2BlockSize data
  let inodeSize ← Prog.view Fs.inodeSize
  Prog.arith (inodeSize ≠ 0)
  let inodesPerBlock := blksz / inodeSize
  Prog.arith (inodesPerBlock ≠ 0)
  let blkno := (blkgrp.le32 8 + ino % data.inodesPerGroup / inodesPerBlock) % 2 ^ 32
  let blkoff := signedRem ino inodesPerBlock * inodeSize % 2 ^ 32
  let sector ← shl32 blkno data.log2Ext2BlockSize
  let raw ← readStruct machine sector blkoff 128
  pure { raw }

/-- The inode of a node, read from the disk unless the node holds it. -/
def nodeInode (node : Node) : FsProg Inode :=
  if node.inodeRead then pure node.inode else ext2fsReadInode machine node.data node.ino

/-- The two indirect-block caches. -/
inductive Slot where
  | indir1
  | indir2

namespace Slot

def get : Slot → Fs → IndirCache
  | .indir1, fs => fs.indir1
  | .indir2, fs => fs.indir2

def put : Slot → IndirCache → Fs → Fs
  | .indir1, cache, fs => { fs with indir1 := cache }
  | .indir2, cache, fs => { fs with indir2 := cache }

end Slot

/-- Gives a cache a new block of `blksz` bytes, with nothing in it. -/
def allocateIndir (slot : Slot) (blksz : Nat) : FsProg Unit := do
  malloc machine blksz
  Prog.update (slot.put { block := some .blank, size := blksz, blkno := noBlkno })

/-- Reads the block at `sector` into a cache. On a short read the block keeps
the bytes that were delivered, and the block number does not change. -/
def fillIndir (slot : Slot) (blksz sector : Nat) : FsProg Unit := do
  Prog.inPlace (fun fs => ((slot.get fs).block).getD .blank)
    (fun buffer fs => slot.put { slot.get fs with block := some buffer } fs)
    (partRead machine sector 0 blksz 0)
  Prog.update fun fs => slot.put { slot.get fs with blkno := sector } fs

/-- Makes a cache a block of `blksz` bytes, a new one unless it is that. -/
def ensureIndir (slot : Slot) (blksz : Nat) : FsProg Unit := do
  let cache ← Prog.view slot.get
  if cache.block.isNone then allocateIndir machine slot blksz
  let cache ← Prog.view slot.get
  if blksz ≠ cache.size then do
    Prog.update (slot.put .empty)
    allocateIndir machine slot blksz

/-- Reads the block at `sector` into a cache that does not hold it. -/
def refreshIndir (slot : Slot) (blksz sector : Nat) : FsProg Unit := do
  let cache ← Prog.view slot.get
  if sector ≠ cache.blkno then fillIndir machine slot blksz sector

/-- The code that stands three times in `ext2fs_read_block`: makes a cache hold
the block that `pointer` names, a block of `blksz` bytes. -/
def loadIndir (slot : Slot) (blksz log2Blksz : Nat) (pointer : FsProg Nat) : FsProg Unit := do
  ensureIndir machine slot blksz
  let sector ← shl32 (← pointer) log2Blksz
  refreshIndir machine slot blksz sector

/-- `__le32_to_cpu (indirN_block[index])`. -/
def indirEntry (slot : Slot) (index : Nat) : FsProg Nat := do
  let cache ← Prog.view slot.get
  Prog.demand (4 * index + 4 ≤ cache.size)
  Prog.defined (cache.block.bind fun block => block.le32? (4 * index))

def ext2fsReadBlock (node : Node) (fileblock : Nat) : FsProg Nat := do
  let blksz ← ext2BlockSizeInt node.data
  let log2Blksz := node.data.log2Ext2BlockSize
  Prog.demand (fileblock < 2 ^ 31)
  if fileblock < 12 then pure (node.inode.dirBlock fileblock)
  else if fileblock < 12 + blksz / 4 then do
    loadIndir machine .indir1 blksz log2Blksz (pure node.inode.indirBlock)
    indirEntry .indir1 (fileblock - 12)
  else do
    -- the bound is computed as an `int`
    Prog.demand (12 + blksz / 4 * (blksz / 4 + 1) < 2 ^ 31)
    if fileblock < 12 + blksz / 4 * (blksz / 4 + 1) then do
      let perblock := blksz / 4
      let rblock := fileblock - (12 + blksz / 4)
      loadIndir machine .indir1 blksz log2Blksz (pure node.inode.doubleIndirBlock)
      loadIndir machine .indir2 blksz log2Blksz (indirEntry .indir1 (rblock / perblock))
      indirEntry .indir2 (rblock % perblock)
    else Prog.fail .fsCorrupt

/-- What the loop of `ext2fs_read_file` works with. -/
structure Range where
  node : Node
  pos : Nat
  len : Nat
  blocksize : Nat
  blockcnt : Nat

namespace Range

variable (range : Range)

/-- `skipfirst` in block `i`. -/
def skipfirst (i : Nat) : Nat := if i = range.pos / range.blocksize then range.pos % range.blocksize else 0

/-- `blockend` in block `i`, before the skipped bytes are taken off. -/
def blockend (i : Nat) : Nat :=
  if i = range.blockcnt - 1 then
    let rest := (range.len + range.pos) % 2 ^ 32 % range.blocksize
    if rest = 0 then range.blocksize else rest
  else range.blocksize

end Range

/-- `memset (buf, 0, count)` at index `place`. -/
def memsetZero (place count : Nat) : FillProg Unit :=
  Prog.update fun state => (state.1, state.2.store place count fun _ => 0)

/-- The first sector of block `i` of a file, 0 for a hole. -/
def fileSector (node : Node) (i : Nat) : FsProg Nat := do
  let blknr ← ext2fsReadBlock machine node i
  shl32 blknr node.data.log2Ext2BlockSize

/-- Stores block `i`, which starts at `sector`, at index `place`. -/
def storeBlock (range : Range) (i place sector : Nat) : FillProg Unit :=
  let skipfirst := range.skipfirst i
  let count := (range.blockend i + 2 ^ 32 - skipfirst) % 2 ^ 32
  if sector ≠ 0 then partRead machine sector skipfirst count place
  else memsetZero place (range.blocksize - skipfirst)

/-- One iteration: block `i` of the file goes to index `place`. -/
def readFileBlock (range : Range) (i place : Nat) : FillProg Unit := do
  let sector ← Prog.onFirst (fileSector machine range.node i)
  storeBlock machine range i place sector

/-- A loop over `count` blocks from block `i` on; block `i` goes to index `place`
of the buffer and takes `width i` bytes of it. -/
def eachBlock {σ : Type} (body : Nat → Nat → Prog QuikErr σ Unit) (width : Nat → Nat) :
    (count i place : Nat) → Prog QuikErr σ Unit
  | 0, _, _ => pure ()
  | count + 1, i, place => do
      body i place
      eachBlock body width count (i + 1) (place + width i)

def readFileBlocks (range : Range) (count i place : Nat) : FillProg Unit :=
  eachBlock (readFileBlock machine range) (fun i => range.blocksize - range.skipfirst i) count i place

/-- The loop's parameters; `len` is cut to the size of the file. -/
def fileRange (node : Node) (pos len blocksize : Nat) : Range :=
  let len := min len node.inode.size
  { node, pos, len, blocksize, blockcnt := (len + pos + blocksize - 1) % 2 ^ 32 / blocksize }

def ext2fsReadFile (node : Node) (pos len : Nat) : FillProg Unit := do
  let blocksize ← Prog.onFirst (ext2BlockSizeInt node.data)
  let range := fileRange node pos len blocksize
  readFileBlocks machine range (range.blockcnt - pos / blocksize) (pos / blocksize) 0

/-- `ext2fs_read_file` into a new block of the heap, which has free memory behind it. -/
def readFresh (node : Node) (pos len : Nat) : FsProg Buffer :=
  Prog.scratch Buffer.blank (ext2fsReadFile machine node pos len)

/-- `ext2fs_read_file` into a local variable of `room` bytes. The bytes are stored one
behind the other from the start of it on, so a call that stores behind it has stored
at `room`. -/
def readLocal (room : Nat) (node : Node) (pos len : Nat) : FsProg Buffer :=
  Prog.scratch Buffer.blank (Prog.confine (fun state => state.2 room = none) (ext2fsReadFile machine node pos len))

end IQuik.Ext2
