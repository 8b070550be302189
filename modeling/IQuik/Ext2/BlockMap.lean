import IQuik.Ext2.Readable
import IQuik.Ext2.Loads
import IQuik.Program.Triples

namespace IQuik.Ext2

open IQuik.Data IQuik.Program IQuik.Storage

/-! # Lookups in caches of any history

The caches may hold blocks of another block size, and a cache that holds no
block may have anything in its buffer.
-/

/-- A cache has no block number, or its buffer holds the block at that sector. -/
inductive Coherent (image : Nat → Image) (part : Part) : IndirCache → Prop
  | unread (block : Option Buffer) (size : Nat) : Coherent image part { block, size, blkno := noBlkno }
  | loaded {block : Buffer} {size blkno : Nat}
      (bytes : block.Holds 0 size (sectorImage image part blkno 0)) :
      Coherent image part { block := some block, size, blkno }

/-- Both caches are coherent with the open partition. -/
structure CachesCoherent (image : Nat → Image) (fs : Fs) : Prop where
  indir1 : Coherent image fs.part fs.indir1
  indir2 : Coherent image fs.part fs.indir2

/-- A coherent cache with a buffer of `size` bytes. -/
def Sized (image : Nat → Image) (part : Part) (size : Nat) (cache : IndirCache) : Prop :=
  Coherent image part cache ∧ cache.block.isSome ∧ cache.size = size

/-- A cache that holds the block of `size` bytes at `sector`. -/
def Holding (image : Nat → Image) (part : Part) (size sector : Nat) (cache : IndirCache) : Prop :=
  ∃ block : Buffer, cache = { block := some block, size, blkno := sector } ∧
    block.Holds 0 size (sectorImage image part sector 0)

theorem Holding.coherent {image : Nat → Image} {part : Part} {size sector : Nat} {cache : IndirCache}
    (holding : Holding image part size sector cache) : Coherent image part cache := by
  obtain ⟨block, rfl, bytes⟩ := holding
  exact .loaded bytes

section Lookup

variable {machine : Machine} {image : Nat → Image} {start : Fs} {slot : Slot}
  {own others : IndirCache → Prop} {blksz sector : Nat}

variable (image) in
theorem allocateIndir_meets (reliable : machine.Reliable) :
    Prog.Meets (AtSlot start slot own others) (allocateIndir machine slot blksz) fun _ =>
      AtSlot start slot (Sized image start.part blksz) others := by
  intro fs known
  rcases allocateIndir_cases machine slot blksz fs with ⟨mallocs, run⟩ | ⟨refused, -⟩
  · exact ⟨(), _, run, (known.mallocs mallocs).put ⟨.unread _ _, rfl, rfl⟩⟩
  · exact absurd reliable refused

theorem ensureIndir_meets (reliable : machine.Reliable) :
    Prog.Meets (AtSlot start slot (Coherent image start.part) others)
      (ensureIndir machine slot blksz) fun _ => AtSlot start slot (Sized image start.part blksz) others := by
  -- a block was there before, or has just been allocated
  have resized : Prog.Meets
      (AtSlot start slot (fun cache => Coherent image start.part cache ∧ cache.block.isSome) others)
      (do
        let cache ← Prog.view slot.get
        if blksz ≠ cache.size then do
          Prog.update (slot.put .empty)
          allocateIndir machine slot blksz)
      fun _ => AtSlot start slot (Sized image start.part blksz) others := by
    intro fs known
    rw [Prog.view_bind]
    by_cases fits : blksz = (slot.get fs).size
    · rw [if_neg (not_not.mpr fits)]
      exact ⟨(), fs, rfl, known.near, ⟨known.own.1, known.own.2, fits.symm⟩, known.others⟩
    · rw [if_pos fits, Prog.update_bind]
      exact allocateIndir_meets image reliable _ (known.putAny .empty)
  intro fs known
  unfold ensureIndir
  rw [Prog.view_bind]
  by_cases unallocated : (slot.get fs).block.isNone
  · rw [if_pos unallocated]
    refine ((allocateIndir_meets image reliable).bind fun _ => ?_) fs known
    refine resized.conseq (fun after ready => ?_) fun _ _ ready => ready
    exact ready.mono (fun cache sized => ⟨sized.1, sized.2.1⟩) fun _ other => other
  · rw [if_neg unallocated]
    have allocated : (slot.get fs).block.isSome := by
      simpa [Option.isSome_iff_ne_none] using unallocated
    exact resized fs ⟨known.near, ⟨known.own, allocated⟩, known.others⟩

theorem fillIndir_meets (fixed : machine.Fixed image) (reliable : machine.Reliable)
    (inside : sector * 512 + blksz < start.part.len) :
    Prog.Meets (AtSlot start slot (Sized image start.part blksz) others)
      (fillIndir machine slot blksz sector) fun _ =>
        AtSlot start slot (Holding image start.part blksz sector) others := by
  intro fs known
  unfold fillIndir
  have part := known.near.part
  rcases partRead_cases fixed fs (((slot.get fs).block).getD .blank) sector 0 blksz 0 with
    ⟨beyond, -⟩ | ⟨-, calls, run⟩ | ⟨-, unreliable, -⟩
  · rw [part] at beyond
    omega
  · refine ⟨(), _, Prog.bind_run_ok (Prog.inPlace_run_ok run), ?_⟩
    have stored := Buffer.store_holds (((slot.get fs).block).getD .blank) 0 blksz
      (sectorImage image start.part sector 0)
    refine ((known.calls calls).putAny _).put ⟨_, ?_, stored⟩
    simp only [Slot.get_put, Slot.get_calls, known.own.2.2]
    rw [part]
  · exact absurd reliable unreliable

theorem refreshIndir_meets (fixed : machine.Fixed image) (reliable : machine.Reliable)
    (inside : sector * 512 + blksz < start.part.len) (unmarked : sector ≠ noBlkno) :
    Prog.Meets (AtSlot start slot (Sized image start.part blksz) others)
      (refreshIndir machine slot blksz sector) fun _ =>
        AtSlot start slot (Holding image start.part blksz sector) others := by
  intro fs known
  unfold refreshIndir
  rw [Prog.view_bind]
  by_cases hit : sector = (slot.get fs).blkno
  · rw [if_neg (not_not.mpr hit)]
    obtain ⟨coherent, allocated, size⟩ := known.own
    cases state : slot.get fs with
    | mk contents size' blkno =>
    rw [state] at coherent allocated size hit
    subst hit size
    cases coherent with
    | unread => exact absurd rfl unmarked
    | loaded bytes => exact ⟨(), fs, rfl, known.near, ⟨_, state, bytes⟩, known.others⟩
  · rw [if_pos hit]
    exact fillIndir_meets fixed reliable inside fs known

theorem indirEntry_meets {index : Nat} (bound : 4 * index + 4 ≤ blksz) :
    Prog.Meets (AtSlot start slot (Holding image start.part blksz sector) others)
      (indirEntry slot index) fun value fs =>
        value = (sectorImage image start.part sector 0).le32 (4 * index) ∧
          AtSlot start slot (Holding image start.part blksz sector) others fs := by
  intro fs known
  obtain ⟨block, state, bytes⟩ := known.own
  refine ⟨_, fs, ?_, rfl, known⟩
  unfold indirEntry
  rw [Prog.view_bind, state, Prog.demand_pos bound, Prog.pure_bind, Option.bind_some,
    bytes.le32? bound]
  rfl

end Lookup

/-! # The map without caches -/

section Literal

variable (image : Nat → Image) (part : Part) (node : Node)

/-- Entry `index` of a block of pointers, block zero included. -/
def literalEntry (data : Ext2Data) (block index : Nat) : Nat :=
  (blockImage image part data block).le32 (4 * index)

/-- The pointer block of a double-indirect block. -/
def literalRow (i : Nat) : Nat :=
  let perblock := node.data.blockBytes / 4
  literalEntry image part node.data node.inode.doubleIndirBlock ((i - (12 + perblock)) / perblock)

/-- Block `i` of the file, with every pointer followed as it stands. -/
def literalBlock (i : Nat) : Nat :=
  let perblock := node.data.blockBytes / 4
  if i < 12 then node.inode.dirBlock i
  else if i < 12 + perblock then literalEntry image part node.data node.inode.indirBlock (i - 12)
  else literalEntry image part node.data (literalRow image part node i) ((i - (12 + perblock)) % perblock)

/-- A block that can be read: its sectors have 32-bit numbers and lie in the
partition. -/
def Reachable (data : Ext2Data) (block : Nat) : Prop := Addressable data block ∧ Inside part data block

/-- The first block number beyond the double-indirect ones. -/
def mapLimit : Nat :=
  12 + node.data.blockBytes / 4 + node.data.blockBytes / 4 * (node.data.blockBytes / 4)

/-- The pointer blocks on the way to block `i` can be read. -/
structure ReachableBlock (i : Nat) : Prop where
  single : 12 ≤ i → i < 12 + node.data.blockBytes / 4 → Reachable part node.data node.inode.indirBlock
  double : 12 + node.data.blockBytes / 4 ≤ i → i < mapLimit node →
    Reachable part node.data node.inode.doubleIndirBlock ∧
      Reachable part node.data (literalRow image part node i)

end Literal

variable {machine : Machine} {image : Nat → Image} {part : Part} {node : Node} {start : Fs} {slot : Slot}
  {others : IndirCache → Prop}

theorem shifted_shift {data : Ext2Data} (sized : BlockSized data) : data.log2Ext2BlockSize < 32 := by
  have bound : data.log2BlockSize ≤ 6 := sized
  rw [sized.shift]
  omega

variable (slot others) in
/-- A cached lookup loads the block that its pointer names. -/
theorem loadIndir_meets {data : Ext2Data} {block : Nat} {pointer : FsProg Nat}
    (fixed : machine.Fixed image) (reliable : machine.Reliable) (sized : BlockSized data)
    (reachable : Reachable start.part data block)
    (points : Prog.Meets (AtSlot start slot (Sized image start.part data.blockBytes) others) pointer
      fun value fs => value = block ∧ AtSlot start slot (Sized image start.part data.blockBytes) others fs) :
    Prog.Meets (AtSlot start slot (Coherent image start.part) others)
      (loadIndir machine slot data.blockBytes data.log2Ext2BlockSize pointer) fun _ =>
        AtSlot start slot (Holding image start.part data.blockBytes
          (block * 2 ^ data.log2Ext2BlockSize % 2 ^ 32)) others := by
  have inside : block * 2 ^ data.log2Ext2BlockSize % 2 ^ 32 * 512 + data.blockBytes < start.part.len := by
    rw [sector_bytes sized reachable.1, ← Nat.succ_mul]
    exact reachable.2
  have shift : data.log2Ext2BlockSize ≠ 0 := by
    rw [sized.shift]
    exact Nat.succ_ne_zero _
  refine (ensureIndir_meets reliable).bind fun _ => points.bindOf fun value same => ?_
  subst same
  intro fs known
  rw [Prog.bind_run_ok (shl32_run (shifted_shift sized) fs)]
  exact refreshIndir_meets fixed reliable inside (shifted_ne_noBlkno shift rfl) fs known

theorem literalEntry_eq {data : Ext2Data} {block : Nat} (sized : BlockSized data)
    (reachable : Reachable part data block) (index : Nat) :
    (sectorImage image part (block * 2 ^ data.log2Ext2BlockSize % 2 ^ 32) 0).le32 (4 * index) =
      literalEntry image part data block index := by
  apply Image.le32_congr
  intro offset _ _
  rw [sectorImage_eq (shifted_shift sized) reachable.1 rfl, Nat.zero_add]

variable (image slot others) in
/-- A cached lookup of an entry, from the loaded block. -/
theorem loadedEntry_meets {data : Ext2Data} {block index : Nat} (sized : BlockSized data)
    (reachable : Reachable start.part data block) (bound : index < data.blockBytes / 4) :
    Prog.Meets (AtSlot start slot (Holding image start.part data.blockBytes
        (block * 2 ^ data.log2Ext2BlockSize % 2 ^ 32)) others)
      (indirEntry slot index) fun value fs =>
        value = literalEntry image start.part data block index ∧
          AtSlot start slot (Holding image start.part data.blockBytes
            (block * 2 ^ data.log2Ext2BlockSize % 2 ^ 32)) others fs := by
  rw [← literalEntry_eq sized reachable index]
  exact indirEntry_meets (by omega)

theorem AtSlot.coherent {fs : Fs} (known : AtSlot start slot (Coherent image start.part)
    (Coherent image start.part) fs) : CachesCoherent image fs := by
  have part := known.near.part
  cases slot with
  | indir1 => exact ⟨part ▸ known.own, part ▸ known.others⟩
  | indir2 => exact ⟨part ▸ known.others, part ▸ known.own⟩

theorem CachesCoherent.atSlot (coherent : CachesCoherent image start) :
    AtSlot start .indir1 (Coherent image start.part) (Coherent image start.part) start :=
  ⟨.refl _, coherent.indir1, coherent.indir2⟩

section ReadBlock

variable (fixed : machine.Fixed image) (reliable : machine.Reliable) (sized : BlockSized node.data)
  (coherent : CachesCoherent image start)

theorem mapLimit_eq : mapLimit node = 12 + node.data.blockBytes / 4 * (node.data.blockBytes / 4 + 1) := by
  rw [mapLimit, Nat.mul_succ]
  omega

include sized in
theorem mapLimit_lt : mapLimit node < 2 ^ 31 := by
  have bytes := sized.blockBytes
  have perblock : node.data.blockBytes / 4 * (node.data.blockBytes / 4 + 1) ≤ 16384 * 16385 :=
    Nat.mul_le_mul (by omega) (by omega)
  rw [mapLimit_eq]
  omega

include fixed reliable sized coherent in
theorem singleBlock_run {i : Nat} (reachable : ReachableBlock image start.part node i) (small : i < 2 ^ 31)
    (direct : 12 ≤ i) (single : i < 12 + node.data.blockBytes / 4) :
    ∃ after, ext2fsReadBlock machine node i start = .ok (literalBlock image start.part node i) after ∧
      Near start after ∧ CachesCoherent image after := by
  have known := reachable.single direct single
  have found := (loadIndir_meets .indir1 (Coherent image start.part) fixed reliable sized known
    (Prog.Meets.pure fun _ ready => ⟨rfl, ready⟩)).bind
    (fun _ => loadedEntry_meets image .indir1 (Coherent image start.part) sized known (show i - 12 < node.data.blockBytes / 4 by omega))
  obtain ⟨value, after, run, rfl, held⟩ := found start coherent.atSlot
  refine ⟨after, ?_, held.near, (held.mono (fun _ held => held.coherent) fun _ other => other).coherent⟩
  unfold ext2fsReadBlock
  rw [Prog.bind_run_ok (ext2BlockSizeInt_run sized start), Prog.demand_pos small, Prog.pure_bind,
    if_neg (by omega), if_pos single, run, literalBlock, if_neg (by omega), if_pos single]

include fixed reliable sized coherent in
theorem doubleBlock_run {i : Nat} (reachable : ReachableBlock image start.part node i) (small : i < 2 ^ 31)
    (single : 12 + node.data.blockBytes / 4 ≤ i) (double : i < mapLimit node) :
    ∃ after, ext2fsReadBlock machine node i start = .ok (literalBlock image start.part node i) after ∧
      Near start after ∧ CachesCoherent image after := by
  have bytes := sized.blockBytes
  have limit := mapLimit_lt sized
  have row : (i - (12 + node.data.blockBytes / 4)) / (node.data.blockBytes / 4) < node.data.blockBytes / 4 := by
    apply Nat.div_lt_of_lt_mul
    unfold mapLimit at double
    omega
  have column : (i - (12 + node.data.blockBytes / 4)) % (node.data.blockBytes / 4) < node.data.blockBytes / 4 :=
    Nat.mod_lt _ (by omega)
  obtain ⟨first, second⟩ := reachable.double single double
  have outer := loadIndir_meets .indir1 (Coherent image start.part) fixed reliable sized first
    (Prog.Meets.pure fun _ ready => ⟨rfl, ready⟩)
  have entry := loadedEntry_meets image .indir1 (Sized image start.part node.data.blockBytes) sized first row
  have inner := loadIndir_meets .indir2 _ fixed reliable sized second
    (entry.conseq (fun _ ready => ready.swap) fun _ _ found => ⟨found.1, found.2.swap⟩)
  have found := outer.bind fun _ => (inner.conseq (fun _ held => held.swap) fun _ _ held => held).bind
    fun _ => loadedEntry_meets image .indir2 _ sized second column
  obtain ⟨value, after, run, rfl, held⟩ := found start coherent.atSlot
  refine ⟨after, ?_, held.near,
    (held.mono (fun _ held => held.coherent) fun _ held => held.coherent).coherent⟩
  rw [mapLimit_eq] at double limit
  unfold ext2fsReadBlock
  rw [Prog.bind_run_ok (ext2BlockSizeInt_run sized start), Prog.demand_pos small, Prog.pure_bind,
    if_neg (by omega), if_neg (by omega), Prog.demand_pos limit, Prog.pure_bind, if_pos double, run,
    literalBlock, if_neg (by omega), if_neg (by omega)]

end ReadBlock

/-- Up to the last double-indirect block `ext2fs_read_block` returns what the
map without caches has, beyond it `ERR_FS_CORRUPT`, and in either case the
caches are coherent again. -/
theorem readBlock_literal (fixed : machine.Fixed image) (reliable : machine.Reliable)
    (sized : BlockSized node.data) (coherent : CachesCoherent image start) {fileblock : Nat}
    (small : fileblock < 2 ^ 31) (reachable : ReachableBlock image start.part node fileblock) :
    (fileblock < mapLimit node →
      ∃ after, ext2fsReadBlock machine node fileblock start =
          .ok (literalBlock image start.part node fileblock) after ∧
        Near start after ∧ CachesCoherent image after) ∧
    (mapLimit node ≤ fileblock →
      ext2fsReadBlock machine node fileblock start = .error .fsCorrupt start) := by
  constructor
  · intro double
    by_cases direct : fileblock < 12
    · refine ⟨start, ?_, .refl _, coherent⟩
      unfold ext2fsReadBlock
      rw [Prog.bind_run_ok (ext2BlockSizeInt_run sized start), Prog.demand_pos small, Prog.pure_bind,
        if_pos direct, literalBlock, if_pos direct]
      rfl
    · by_cases single : fileblock < 12 + node.data.blockBytes / 4
      · exact singleBlock_run fixed reliable sized coherent reachable small (by omega) single
      · exact doubleBlock_run fixed reliable sized coherent reachable small (by omega) double
  · intro beyond
    have limit := mapLimit_lt sized
    have reaches : 12 + node.data.blockBytes / 4 ≤ fileblock := Nat.le_trans (Nat.le_add_right _ _) beyond
    rw [mapLimit_eq] at beyond limit
    unfold ext2fsReadBlock
    rw [Prog.bind_run_ok (ext2BlockSizeInt_run sized start), Prog.demand_pos small, Prog.pure_bind,
      if_neg (by omega), if_neg (by omega), Prog.demand_pos limit, Prog.pure_bind, if_neg (by omega)]
    rfl

/-- An open partition on a disk of zeros. -/
def zeroDisk : Fs := { Fs.startUp with part := { Part.zero with start := 32768, len := 65536 } }

theorem zeroDisk_warm (image : Nat → Image) : Warm image zeroDisk zeroDisk :=
  ⟨.refl _, .unallocated _, .unallocated _⟩

/-- A file with pointers to block 0 only. -/
def zeroNode : Node :=
  { data := { sblock := fun _ => 0, rootInode := { raw := fun _ => 0 } }
    inode := { raw := fun _ => 0 }, ino := 12, inodeRead := true }

/-- A small file in one block of the partition. -/
theorem smallFile_readable (image : Nat → Image) {part : Part} {node : Node} {block : Nat}
    (volume : node.data.log2BlockSize = 0) (small : node.inode.size ≤ 1024) (first : node.inode.dirBlock 0 = block)
    (low : block < 2 ^ 31) (inside : (block + 1) * 1024 < part.len) : Readable image part node := by
  have shift : node.data.log2Ext2BlockSize = 1 := by
    rw [Ext2Data.log2Ext2BlockSize, volume]
    rfl
  have blockBytes : node.data.blockBytes = 1024 := by
    rw [Ext2Data.blockBytes, Ext2Data.log2Bytes, volume]
    rfl
  refine ⟨by rw [BlockSized, volume]; exact Nat.zero_le 6, by omega, fun i upper => ?_⟩
  rw [blockBytes] at upper
  obtain rfl : i = 0 := by omega
  have solid : treeBlock image part node 0 = block := by
    unfold treeBlock
    simp only [if_pos (by decide : 0 < 12), first]
  refine ⟨⟨?_, fun lower => absurd lower (by decide), fun lower => by omega⟩, by omega, ?_,
    fun lower => absurd lower (by decide), fun lower => by omega⟩
  · rw [solid, Addressable, shift]
    exact Nat.mul_lt_mul_of_pos_right low (by decide)
  · rw [solid, Inside, blockBytes]
    exact inside

theorem oneBlock_readable (image : Nat → Image) {node : Node} (volume : node.data.log2BlockSize = 0)
    (small : node.inode.size ≤ 1024) (block : node.inode.dirBlock 0 = 5) :
    Readable image zeroDisk.part node :=
  smallFile_readable image volume small block (by decide) (by decide)

/-- A disk with a double-indirect block 5, whose rows are blocks 8 and 9. Entry 3 of
the second row is 11. -/
def twoRows : Image :=
  .ofRuns [(32768 + 5 * 1024, [8, 0, 0, 0, 9]), (32768 + 8 * 1024, [6, 0, 0, 0, 7]), (32768 + 9 * 1024 + 12, [11])]

/-- A file with the double-indirect block 5. -/
def rowsNode : Node := { zeroNode with inode := { raw := .ofRuns [(92, [5])] } }

/-- A cache with the block of 1 KiB at `sector` of the partition. -/
def loadedCache (image : Image) (sector : Nat) : IndirCache :=
  { block := some (Buffer.blank.store 0 1024 (sectorImage (fun _ => image) zeroDisk.part sector 0))
    size := 1024, blkno := sector }

theorem loadedCache_coherent (image : Image) (sector : Nat) :
    Coherent (fun _ => image) zeroDisk.part (loadedCache image sector) :=
  .loaded fun index inside => by
    have held := Buffer.store_holds Buffer.blank 0 1024 (sectorImage (fun _ => image) zeroDisk.part sector 0)
    exact held index inside

/-- The double-indirect block and its first row are in the caches. -/
def firstRowCached : Fs :=
  { zeroDisk with indir1 := loadedCache twoRows 10, indir2 := loadedCache twoRows 16 }

/-- A block of the second row is looked up. -/
theorem readBlock_literal_sample : ∃ after,
    ext2fsReadBlock (diskMachine twoRows) rowsNode 527 firstRowCached = .ok 11 after ∧
    Near firstRowCached after ∧ CachesCoherent (fun _ => twoRows) after := by
  have steady := diskMachine_steady twoRows
  have coherent : CachesCoherent (fun _ => twoRows) firstRowCached :=
    ⟨loadedCache_coherent twoRows 10, loadedCache_coherent twoRows 16⟩
  have sized : BlockSized rowsNode.data := by
    unfold BlockSized
    decide +kernel
  have reaches : ∀ block, block < 63 → Reachable firstRowCached.part rowsNode.data block := by
    unfold Reachable Addressable Inside
    decide +kernel
  have first : rowsNode.inode.doubleIndirBlock = 5 := by decide +kernel
  have row : literalRow (fun _ => twoRows) firstRowCached.part rowsNode 527 = 9 := by decide +kernel
  have reachable : ReachableBlock (fun _ => twoRows) firstRowCached.part rowsNode 527 :=
    ⟨fun _ below => absurd below (by decide +kernel),
      fun _ _ => ⟨first ▸ reaches 5 (by decide), row ▸ reaches 9 (by decide)⟩⟩
  have found : literalBlock (fun _ => twoRows) firstRowCached.part rowsNode 527 = 11 := by decide +kernel
  rw [← found]
  exact (readBlock_literal steady.fixed steady.reliable sized coherent (by decide) reachable).1
    (by decide +kernel)

end IQuik.Ext2
