import IQuik.Ext2.Frames
import IQuik.Ext2.BlockMap
import IQuik.Program.Exits

namespace IQuik.Ext2

open IQuik.Data IQuik.Program IQuik.Storage

/-! # Indirect blocks after reads that failed

A read that comes up short has overwritten the front of the buffer, and the
cache keeps the number of the block that it held before.
-/

/-- What a cache holds as long as no short read has damaged it. The mark of a
cache that holds no block is the number of a sector too, but only a block of one
sector can be there. -/
inductive CacheSound (image : Nat → Image) (part : Part) (shift : Nat) : IndirCache → Prop
  | unread {block : Option Buffer} (size : Nat)
      (unmarked : shift ≠ 0 ∨ block = none ∨ block = some .blank) :
      CacheSound image part shift { block, size, blkno := noBlkno }
  | loaded {block : Buffer} {size blkno : Nat} (inside : blkno * 512 + size < part.len)
      (bytes : block.Holds 0 size (sectorImage image part blkno 0)) :
      CacheSound image part shift { block := some block, size, blkno }

/-- The cache that a lookup fills: a block of another size has been dropped. -/
def resized (cache : IndirCache) (size : Nat) : IndirCache :=
  if cache.block.isSome ∧ size = cache.size then cache
  else { block := some .blank, size, blkno := noBlkno }

/-- Reading the block at `sector` would damage the cache: the cache has a block,
and the read delivers a part of the other one. -/
structure Damages (machine : Machine) (part : Part) (call shift sector : Nat) (cache : IndirCache) :
    Prop where
  marked : cache.blkno ≠ noBlkno ∨ shift = 0
  miss : sector ≠ cache.blkno
  inside : sector * 512 + cache.size < part.len
  some : 0 < (machine.read call part.dev (sector * 512 + part.start) cache.size).count
  short : (machine.read call part.dev (sector * 512 + part.start) cache.size).count < cache.size

/-- A cache that is marked with `sector`. It holds the block there, or it is a
new one that has the mark of none. -/
def Marked (image : Nat → Image) (part : Part) (size sector : Nat) (cache : IndirCache) : Prop :=
  ∃ block, cache = { block := some block, size, blkno := sector } ∧
    (sector = noBlkno ∧ block = .blank ∨
      sector * 512 + size < part.len ∧ block.Holds 0 size (sectorImage image part sector 0))

variable {machine : Machine} {image : Nat → Image} {start : Fs} {slot : Slot} {part : Part}
  {own others : IndirCache → Prop} {cache : IndirCache} {call shift blksz sector : Nat}

theorem Marked.sound (marked : Marked image part blksz sector cache) :
    CacheSound image part shift cache := by
  obtain ⟨block, rfl, ⟨rfl, rfl⟩ | ⟨inside, bytes⟩⟩ := marked
  · exact .unread _ (.inr (.inr rfl))
  · exact .loaded inside bytes

theorem CacheSound.resized (sound : CacheSound image part shift cache) (size : Nat) :
    CacheSound image part shift (resized cache size) := by
  unfold Ext2.resized
  split
  · exact sound
  · exact .unread _ (.inr (.inr rfl))

theorem resized_block (cache : IndirCache) (size : Nat) :
    (resized cache size).block.isSome ∧ (resized cache size).size = size := by
  unfold resized
  split
  · rename_i fits
    exact ⟨fits.1, fits.2.symm⟩
  · exact ⟨rfl, rfl⟩

/-- Both caches are sound. -/
structure CachesSound (image : Nat → Image) (shift : Nat) (fs : Fs) : Prop where
  indir1 : CacheSound image fs.part shift fs.indir1
  indir2 : CacheSound image fs.part shift fs.indir2

/-- What is known of both caches, and how many calls were made. -/
structure Tracked (start : Fs) (slot : Slot) (call : Nat) (own others : IndirCache → Prop) (fs : Fs) :
    Prop extends AtSlot start slot own others fs where
  calls : fs.calls = call

theorem Tracked.put {fs : Fs} (known : Tracked start slot call own others fs)
    {own' : IndirCache → Prop} {cache : IndirCache} (holds : own' cache) :
    Tracked start slot call own' others (slot.put cache fs) where
  toAtSlot := known.toAtSlot.put holds
  calls := by cases slot <;> exact known.calls

theorem Tracked.swap {fs : Fs} (known : Tracked start slot call own others fs) :
    Tracked start slot.other call others own fs :=
  ⟨known.toAtSlot.swap, known.calls⟩

theorem walkEntry_inside {index : Nat} (inside : sector * 512 + blksz < part.len) :
    walkEntry image part blksz sector index () = .ok ((sectorImage image part sector 0).le32 (4 * index)) () := by
  unfold walkEntry
  rw [if_neg (Nat.not_le_of_lt inside)]
  rfl

section Operations

theorem allocateIndir_exits :
    Prog.Exits True (Tracked start slot call own others) (allocateIndir machine slot blksz)
      (fun _ => Tracked start slot call (· = { block := some .blank, size := blksz, blkno := noBlkno }) others)
      fun _ => AtSlot start slot own others := by
  intro fs known
  unfold allocateIndir
  by_cases granted : machine.grants fs.mallocs blksz = true
  · have after : Tracked start slot call own others { fs with mallocs := fs.mallocs + 1 } :=
      ⟨known.toAtSlot.mallocs _, known.calls⟩
    rw [Prog.bind_run_ok (if_pos granted : malloc machine blksz fs = _)]
    exact after.put rfl
  · rw [Prog.bind_run_error (if_neg granted : malloc machine blksz fs = _)]
    exact known.toAtSlot.mallocs _

theorem ensureIndir_exits :
    Prog.Exits True (Tracked start slot call (· = cache) others) (ensureIndir machine slot blksz)
      (fun _ => Tracked start slot call (· = resized cache blksz) others)
      fun _ => AtSlot start slot (fun left => left = cache ∨ left = .empty) others := by
  intro fs known
  have own := known.own
  unfold ensureIndir
  rw [Prog.view_bind, own]
  by_cases unallocated : cache.block.isNone
  · have fresh : resized cache blksz = { block := some .blank, size := blksz, blkno := noBlkno } := by
      refine if_neg fun fits => ?_
      simp [Option.isNone_iff_eq_none.mp unallocated] at fits
    rw [if_pos unallocated, fresh]
    refine ((allocateIndir_exits.conseq (fun _ known => known) (fun _ _ after => after)
      fun _ _ after => after.mono (fun _ same => Or.inl same) fun _ same => same).bind
        fun _ after ready => ?_) fs known
    have own := ready.own
    beta_reduce
    rw [Prog.view_bind, own, if_neg (not_not.mpr rfl)]
    exact ready
  · have allocated : cache.block.isSome := by
      simpa [Option.isSome_iff_ne_none] using unallocated
    rw [if_neg unallocated]
    beta_reduce
    rw [Prog.view_bind, own]
    by_cases fits : blksz = cache.size
    · rw [if_neg (not_not.mpr fits)]
      have same : resized cache blksz = cache := if_pos ⟨allocated, fits⟩
      rw [same]
      exact known
    · have fresh : resized cache blksz = { block := some .blank, size := blksz, blkno := noBlkno } :=
        if_neg fun both => fits both.2
      have emptied : Tracked start slot call (· = .empty) others (slot.put .empty fs) := known.put rfl
      rw [if_pos fits, Prog.update_bind, fresh]
      exact (allocateIndir_exits.conseq (fun _ known => known) (fun _ _ after => after)
        fun _ _ after => after.mono (fun _ same => Or.inr same) fun _ same => same)
          _ emptied

/-- A read inside the partition, on disks with fixed contents. -/
theorem partRead_run (fixed : machine.Fixed image) {fs : Fs} {buffer : Buffer}
    {sector byteOffset byteLen place : Nat} (some : byteLen ≠ 0)
    (inside : sector * 512 + byteOffset + byteLen < fs.part.len) {count : Nat}
    (delivered : count = (machine.read fs.calls fs.part.dev (sector * 512 + fs.part.start + byteOffset)
      byteLen).stored byteLen) :
    partRead machine sector byteOffset byteLen place (fs, buffer) =
      if count = byteLen then
        .ok () ({ fs with calls := fs.calls + 1 },
          buffer.store place count (sectorImage image fs.part sector byteOffset))
      else .error .devShortRead ({ fs with calls := fs.calls + 1 },
        buffer.store place count (sectorImage image fs.part sector byteOffset)) := by
  have read : Prog.onFirst (diskRead machine fs.part.dev byteLen (sector * 512 + fs.part.start + byteOffset))
      (fs, buffer) = .ok (machine.read fs.calls fs.part.dev (sector * 512 + fs.part.start + byteOffset) byteLen)
      ({ fs with calls := fs.calls + 1 }, buffer) :=
    Prog.onFirst_eq_ok.mpr ⟨if_neg some, rfl⟩
  have whole : (machine.read fs.calls fs.part.dev (sector * 512 + fs.part.start + byteOffset) byteLen).count =
      byteLen ↔ count = byteLen := by
    rw [delivered]
    constructor
    · exact Delivery.stored_whole
    · exact fun stored => of_not_not fun short => absurd stored (Nat.ne_of_lt (Delivery.stored_short some short))
  have stored : buffer.store place count (machine.read fs.calls fs.part.dev
        (sector * 512 + fs.part.start + byteOffset) byteLen).bytes =
      buffer.store place count (sectorImage image fs.part sector byteOffset) := by
    apply Buffer.store_congr
    intro index _
    rw [fixed.bytes, sectorImage, volume]
    congr 1
    omega
  unfold partRead
  rw [Prog.view_bind, if_neg (Nat.not_le_of_lt inside), Prog.bind_run_ok read, Prog.update_bind, ← delivered, stored]
  simp only [whole]
  split <;> rfl

/-- Filling a sound cache marks it, and a fill that fails leaves it sound, unless
the read damages it. -/
theorem fillIndir_exits (fixed : machine.Fixed image) (sound : CacheSound image start.part shift cache)
    (allocated : cache.block.isSome) (size : cache.size ≠ 0) (miss : sector ≠ cache.blkno) :
    Prog.Exits True (Tracked start slot call (· = cache) others) (fillIndir machine slot cache.size sector)
      (fun _ => Tracked start slot (call + 1) (Marked image start.part cache.size sector) others)
      fun _ fs => ¬Damages machine start.part call shift sector cache →
        AtSlot start slot (CacheSound image start.part shift) others fs := by
  intro fs known
  have own := known.own
  have part := known.near.part
  obtain rfl := known.calls
  obtain ⟨block, contents⟩ := Option.isSome_iff_exists.mp allocated
  have same : { cache with block := some block } = cache := by rw [← contents]
  have buffer : ((slot.get fs).block).getD .blank = block := by rw [own, contents]; rfl
  rw [← part] at sound ⊢
  unfold fillIndir
  by_cases inside : sector * 512 + 0 + cache.size < fs.part.len
  swap
  · have beyond : partRead machine sector 0 cache.size 0 (fs, ((slot.get fs).block).getD .blank) =
        .error .partBeyond (fs, block) := by
      rw [buffer]
      unfold partRead
      rw [Prog.view_bind, if_pos (Nat.le_of_not_lt inside)]
      rfl
    rw [Prog.bind_run_error (Prog.inPlace_run_error beyond)]
    intro _
    have kept := known.toAtSlot.put sound
    simpa only [own, same] using kept
  have fits : sector * 512 + cache.size < fs.part.len := by rwa [Nat.add_zero] at inside
  obtain ⟨count, counted⟩ : ∃ count, count = (machine.read fs.calls fs.part.dev
    (sector * 512 + fs.part.start + 0) cache.size).stored cache.size := ⟨_, rfl⟩
  have delivered :=
    (congrArg (fun buffer => partRead machine sector 0 cache.size 0 (fs, buffer)) buffer).trans
      (partRead_run fixed size inside counted)
  have after : Tracked start slot (fs.calls + 1) (· = cache) others { fs with calls := fs.calls + 1 } :=
    ⟨known.toAtSlot.calls (fs.calls + 1), rfl⟩
  by_cases whole : count = cache.size
  · rw [if_pos whole, whole] at delivered
    rw [Prog.bind_run_ok (Prog.inPlace_run_ok delivered)]
    have stored := Buffer.store_holds block 0 cache.size (sectorImage image fs.part sector 0)
    have marked : Marked image fs.part cache.size sector { cache with
        block := some (block.store 0 cache.size (sectorImage image fs.part sector 0)), blkno := sector } :=
      ⟨_, rfl, .inr ⟨fits, stored⟩⟩
    have stored : Tracked start slot (fs.calls + 1) (fun _ => True) others (slot.put { cache with
        block := some (block.store 0 cache.size (sectorImage image fs.part sector 0)) }
        { fs with calls := fs.calls + 1 }) := after.put trivial
    have filled := stored.put marked
    simpa only [Prog.update_run, Outcome.EndsIn, Slot.get_put, Slot.get_calls, own] using filled
  · rw [if_neg whole] at delivered
    rw [Prog.bind_run_error (Prog.inPlace_run_error delivered)]
    intro harmless
    have left : CacheSound image fs.part shift { cache with
        block := some (block.store 0 count (sectorImage image fs.part sector 0)) } := by
      rcases Nat.eq_zero_or_pos count with none | some
      · rw [none, Buffer.store_nothing, same]
        exact sound
      · have unmarked : ¬(cache.blkno ≠ noBlkno ∨ shift = 0) := by
          rw [Nat.add_zero] at counted
          have delivers := Delivery.count_eq_stored (counted ▸ some)
          have bound := Nat.le_trans (Nat.le_of_eq counted) Delivery.stored_le
          exact fun marked => harmless ⟨marked, miss, fits, by omega, by omega⟩
        obtain ⟨mark, many⟩ := not_or.mp unmarked
        rw [not_not.mp mark]
        exact .unread _ (.inl many)
    have failed := after.put left
    simpa only [Slot.get_calls, own] using failed.toAtSlot

theorem refreshIndir_exits (fixed : machine.Fixed image) (sound : CacheSound image start.part shift cache)
    (allocated : cache.block.isSome) (size : cache.size ≠ 0) (shifted : shift ≠ 0 → sector ≠ noBlkno) :
    Prog.Exits True (Tracked start slot call (· = cache) others) (refreshIndir machine slot cache.size sector)
      (fun _ => Tracked start slot (if sector = cache.blkno then call else call + 1)
        (Marked image start.part cache.size sector) others)
      fun _ fs => ¬Damages machine start.part call shift sector cache →
        AtSlot start slot (CacheSound image start.part shift) others fs := by
  by_cases hit : sector = cache.blkno
  · have marked : Marked image start.part cache.size sector cache := by
      cases sound with
      | unread size unmarked =>
          have blank := (unmarked.resolve_left fun many => shifted many hit).resolve_left
            fun none => by simp [none] at allocated
          rw [blank]
          exact ⟨.blank, by rw [hit], .inl ⟨hit, rfl⟩⟩
      | loaded inside bytes =>
          subst hit
          exact ⟨_, rfl, .inr ⟨inside, bytes⟩⟩
    rw [if_pos hit]
    intro fs known
    unfold refreshIndir
    rw [Prog.view_bind, known.own, if_neg (not_not.mpr hit)]
    exact ⟨known.toAtSlot.mono (fun _ same => same ▸ marked) fun _ same => same, known.calls⟩
  · rw [if_neg hit]
    intro fs known
    unfold refreshIndir
    rw [Prog.view_bind, known.own, if_pos hit]
    exact fillIndir_exits fixed sound allocated size hit fs known

/-- A lookup in a marked cache. A new cache has bytes nobody wrote. -/
theorem indirEntry_exits {index : Nat} :
    Prog.Exits True (Tracked start slot call (Marked image part blksz sector) others)
      (indirEntry slot index)
      (fun value fs => (sector * 512 + blksz < part.len ∧
          value = (sectorImage image part sector 0).le32 (4 * index)) ∧
        Tracked start slot call (Marked image part blksz sector) others fs)
      fun _ _ => False := by
  intro fs known
  obtain ⟨block, own, found⟩ := known.own
  unfold indirEntry
  rw [Prog.view_bind, own]
  by_cases bound : 4 * index + 4 ≤ blksz
  · rw [Prog.demand_pos bound, Prog.pure_bind, Option.bind_some]
    obtain ⟨-, rfl⟩ | ⟨inside, bytes⟩ := found
    · trivial
    · rw [bytes.le32? bound]
      exact ⟨⟨inside, rfl⟩, known⟩
  · rw [Prog.demand_neg bound]
    trivial

/-- A cached lookup marks the cache, and one that fails leaves it sound, unless
the read damages it. -/
theorem loadIndir_exits {pointer : FsProg Nat} (known : Prop) (entry : Nat) (fixed : machine.Fixed image)
    (sound : CacheSound image start.part shift cache) (size : blksz ≠ 0)
    (points : Prog.Exits True (Tracked start slot call (· = resized cache blksz) others) pointer
      (fun value fs => (known ∧ value = entry) ∧
        Tracked start slot call (· = resized cache blksz) others fs) fun _ _ => False) :
    Prog.Exits True (Tracked start slot call (· = cache) others)
      (loadIndir machine slot blksz shift pointer)
      (fun _ fs => (known ∧ shift < 32) ∧
        Tracked start slot
          (if entry * 2 ^ shift % 2 ^ 32 = (resized cache blksz).blkno then call else call + 1)
          (Marked image start.part blksz (entry * 2 ^ shift % 2 ^ 32)) others fs)
      fun _ fs => ¬Damages machine start.part call shift (entry * 2 ^ shift % 2 ^ 32) (resized cache blksz) →
        AtSlot start slot (CacheSound image start.part shift) others fs := by
  obtain ⟨allocated, fits⟩ := resized_block cache blksz
  unfold loadIndir
  refine (ensureIndir_exits.conseq (fun _ same => same) (fun _ _ same => same) ?_).bind fun _ => ?_
  · intro _ fs after _
    exact after.mono (fun left same => same.elim (fun same => same ▸ sound) fun none => none ▸
      .unread 0 (.inr (.inl rfl))) fun _ same => same
  refine (points.conseq (fun _ same => same) (fun _ _ same => same) fun _ _ => False.elim).bind fun value => ?_
  rintro fs ⟨⟨holds, rfl⟩, ready⟩
  by_cases count : shift < 32
  swap
  · unfold shl32
    rw [Prog.arith_neg count]
    trivial
  rw [Prog.bind_run_ok (shl32_eq_ok.mpr ⟨count, rfl, rfl⟩)]
  have some : (resized cache blksz).size ≠ 0 := by rwa [fits]
  have refreshed : Prog.Exits True (Tracked start slot call (· = resized cache blksz) others)
      (refreshIndir machine slot (resized cache blksz).size (value * 2 ^ shift % 2 ^ 32)) _ _ :=
    refreshIndir_exits fixed (sound.resized blksz) allocated some fun many => shifted_ne_noBlkno many rfl
  rw [fits] at refreshed
  exact refreshed.conseq (fun _ same => same) (fun _ _ after => ⟨⟨holds, count⟩, after⟩)
    (fun _ _ after => after) fs ready

/-- A cached lookup of an entry finds what the disk has. -/
theorem loadEntry_exits {pointer : FsProg Nat} {index : Nat} (known : Prop) (entry : Nat)
    (fixed : machine.Fixed image) (sound : CacheSound image start.part shift cache) (size : blksz ≠ 0)
    (points : Prog.Exits True (Tracked start slot call (· = resized cache blksz) others) pointer
      (fun value fs => (known ∧ value = entry) ∧
        Tracked start slot call (· = resized cache blksz) others fs) fun _ _ => False) :
    Prog.Exits True (Tracked start slot call (· = cache) others)
      (loadIndir machine slot blksz shift pointer >>= fun _ => indirEntry slot index)
      (fun value fs => (known ∧ shift < 32 ∧
          walkEntry image start.part blksz (entry * 2 ^ shift % 2 ^ 32) index () = .ok value ()) ∧
        AtSlot start slot (CacheSound image start.part shift) others fs)
      fun _ fs => ¬Damages machine start.part call shift (entry * 2 ^ shift % 2 ^ 32) (resized cache blksz) →
        AtSlot start slot (CacheSound image start.part shift) others fs := by
  refine (loadIndir_exits known entry fixed sound size points).bind fun _ => ?_
  rintro fs ⟨⟨holds, count⟩, ready⟩
  refine (indirEntry_exits.conseq (fun _ same => same) ?_ fun _ _ => False.elim) fs ready
  rintro value after ⟨⟨inside, rfl⟩, marked⟩
  exact ⟨⟨holds, count, walkEntry_inside inside⟩,
    marked.toAtSlot.mono (fun _ marked => marked.sound) fun _ same => same⟩

end Operations

section Lookups

/-- The first sector of a block. -/
def blockSector (data : Ext2Data) (block : Nat) : Nat := block * 2 ^ data.log2Ext2BlockSize % 2 ^ 32

/-- The block of pointers that the double-indirect block `i` is looked up in. -/
def rowBlock (image : Nat → Image) (part : Part) (node : Node) (i : Nat) : Nat :=
  (sectorImage image part (blockSector node.data node.inode.doubleIndirBlock) 0).le32
    (4 * ((i - (12 + node.data.blockBytes / 4)) / (node.data.blockBytes / 4)))

/-- No read of a lookup of block `i` damages a cache. -/
structure Harmless (machine : Machine) (image : Nat → Image) (node : Node) (i : Nat) (fs : Fs) : Prop where
  single : 12 ≤ i → i < 12 + node.data.blockBytes / 4 →
    ¬Damages machine fs.part fs.calls node.data.log2Ext2BlockSize
      (blockSector node.data node.inode.indirBlock) (resized fs.indir1 node.data.blockBytes)
  double : 12 + node.data.blockBytes / 4 ≤ i →
    i < 12 + node.data.blockBytes / 4 * (node.data.blockBytes / 4 + 1) →
    ¬Damages machine fs.part fs.calls node.data.log2Ext2BlockSize
      (blockSector node.data node.inode.doubleIndirBlock) (resized fs.indir1 node.data.blockBytes)
  row : 12 + node.data.blockBytes / 4 ≤ i →
    i < 12 + node.data.blockBytes / 4 * (node.data.blockBytes / 4 + 1) →
    ¬Damages machine fs.part
      (if blockSector node.data node.inode.doubleIndirBlock = (resized fs.indir1 node.data.blockBytes).blkno
        then fs.calls else fs.calls + 1)
      node.data.log2Ext2BlockSize (blockSector node.data (rowBlock image fs.part node i))
      (resized fs.indir2 node.data.blockBytes)

variable {node : Node} {i : Nat}

theorem AtSlot.cachesSound {fs : Fs}
    (known : AtSlot start slot (CacheSound image start.part shift) (CacheSound image start.part shift) fs) :
    Near start fs ∧ CachesSound image shift fs := by
  have part := known.near.part
  refine ⟨known.near, ?_⟩
  cases slot with
  | indir1 => exact ⟨part ▸ known.own, part ▸ known.others⟩
  | indir2 => exact ⟨part ▸ known.others, part ▸ known.own⟩

/-- A cache that a read left as it was is as sound as before. -/
theorem AtSlot.cachesSound_beside {fs : Fs} {cache : IndirCache}
    (beside : CacheSound image start.part shift cache)
    (known : AtSlot start slot (CacheSound image start.part shift) (· = cache) fs) :
    Near start fs ∧ CachesSound image shift fs :=
  AtSlot.cachesSound (known.mono (fun _ sound => sound) fun _ same => same ▸ beside)

section Walks

variable (sized : node.data.log2Bytes < 31) (small : i < 2 ^ 31)
include sized small

theorem walkBlock_direct (direct : i < 12) :
    walkBlock image part node i () = .ok (node.inode.dirBlock i) () := by
  unfold walkBlock
  rw [Prog.bind_run_ok (ext2BlockSizeInt_eq_ok.mpr ⟨sized, rfl, rfl⟩), Prog.demand_pos small, Prog.pure_bind,
    if_pos direct]
  rfl

variable (direct : ¬i < 12) (count : node.data.log2Ext2BlockSize < 32)
include direct count

theorem walkBlock_single (single : i < 12 + node.data.blockBytes / 4) :
    walkBlock image part node i () = walkEntry image part node.data.blockBytes
      (blockSector node.data node.inode.indirBlock) (i - 12) () := by
  unfold walkBlock
  rw [Prog.bind_run_ok (ext2BlockSizeInt_eq_ok.mpr ⟨sized, rfl, rfl⟩), Prog.demand_pos small, Prog.pure_bind,
    if_neg direct, if_pos single, Prog.bind_run_ok (shl32_eq_ok.mpr ⟨count, rfl, rfl⟩)]
  rfl

theorem walkBlock_double (single : ¬i < 12 + node.data.blockBytes / 4)
    (limit : 12 + node.data.blockBytes / 4 * (node.data.blockBytes / 4 + 1) < 2 ^ 31)
    (double : i < 12 + node.data.blockBytes / 4 * (node.data.blockBytes / 4 + 1))
    (inside : blockSector node.data node.inode.doubleIndirBlock * 512 + node.data.blockBytes < part.len) :
    walkBlock image part node i () = walkEntry image part node.data.blockBytes
      (blockSector node.data (rowBlock image part node i))
      ((i - (12 + node.data.blockBytes / 4)) % (node.data.blockBytes / 4)) () := by
  unfold walkBlock
  rw [Prog.bind_run_ok (ext2BlockSizeInt_eq_ok.mpr ⟨sized, rfl, rfl⟩), Prog.demand_pos small, Prog.pure_bind,
    if_neg direct, if_neg single, Prog.demand_pos limit, Prog.pure_bind, if_pos double,
    Prog.bind_run_ok (shl32_eq_ok.mpr ⟨count, rfl, rfl⟩)]
  exact (Prog.bind_run_ok (walkEntry_inside inside)).trans
    (Prog.bind_run_ok (shl32_eq_ok.mpr ⟨count, rfl, rfl⟩))

end Walks

/-- What `ext2fs_read_block` returns is what the walk without caches finds, and it
leaves the caches sound unless a read damages one of them. -/
theorem readBlock_exits (node : Node) (i : Nat) (fixed : machine.Fixed image)
    (sound : CachesSound image node.data.log2Ext2BlockSize start) :
    Prog.Exits True (· = start) (ext2fsReadBlock machine node i)
      (fun value fs => walkBlock image start.part node i () = .ok value () ∧
        Near start fs ∧ CachesSound image node.data.log2Ext2BlockSize fs)
      fun _ fs => Harmless machine image node i start →
        Near start fs ∧ CachesSound image node.data.log2Ext2BlockSize fs := by
  have size : node.data.blockBytes ≠ 0 := Nat.ne_of_gt node.data.blockBytes_pos
  have ready : Tracked start .indir1 start.calls (· = start.indir1) (· = start.indir2) start :=
    ⟨⟨.refl _, rfl, rfl⟩, rfl⟩
  unfold ext2fsReadBlock
  have blockSize : Prog.Exits True (· = start) (ext2BlockSizeInt node.data) (fun blksz fs =>
      (node.data.log2Bytes < 31 ∧ blksz = node.data.blockBytes) ∧ fs = start) fun _ fs =>
        Harmless machine image node i start → Near start fs ∧ CachesSound image node.data.log2Ext2BlockSize fs := by
    rintro _ rfl
    by_cases sized : node.data.log2Bytes < 31
    · rw [ext2BlockSizeInt_eq_ok.mpr ⟨sized, rfl, rfl⟩]
      exact ⟨⟨sized, rfl⟩, rfl⟩
    · exact .of_stops (ext2BlockSizeInt_stops sized _)
  refine blockSize.bind fun blksz => ?_
  rintro fs ⟨⟨sized, rfl⟩, rfl⟩
  by_cases small : i < 2 ^ 31
  swap
  · rw [Prog.demand_neg small]
    trivial
  rw [Prog.demand_pos small, Prog.pure_bind]
  by_cases direct : i < 12
  · rw [if_pos direct]
    exact ⟨walkBlock_direct sized small direct, .refl _, sound⟩
  rw [if_neg direct]
  by_cases single : i < 12 + node.data.blockBytes / 4
  · rw [if_pos single]
    refine ((loadEntry_exits True node.inode.indirBlock fixed sound.indir1 size
      (.pure fun _ ready => ⟨⟨trivial, rfl⟩, ready⟩)).conseq (fun _ same => same) ?_ ?_) fs ready
    · rintro value after ⟨⟨-, count, found⟩, known⟩
      rw [walkBlock_single sized small direct count single]
      exact ⟨found, known.cachesSound_beside sound.indir2⟩
    · intro _ after known harmless
      exact (known (harmless.single (Nat.le_of_not_lt direct) single)).cachesSound_beside sound.indir2
  rw [if_neg single]
  by_cases limit : 12 + node.data.blockBytes / 4 * (node.data.blockBytes / 4 + 1) < 2 ^ 31
  swap
  · rw [Prog.demand_neg limit]
    trivial
  rw [Prog.demand_pos limit, Prog.pure_bind]
  by_cases double : i < 12 + node.data.blockBytes / 4 * (node.data.blockBytes / 4 + 1)
  swap
  · rw [if_neg double]
    exact fun _ => ⟨.refl _, sound⟩
  rw [if_pos double]
  have reaches := Nat.le_of_not_lt single
  refine (((loadIndir_exits True node.inode.doubleIndirBlock fixed sound.indir1 size
    (.pure fun _ ready => ⟨⟨trivial, rfl⟩, ready⟩)).conseq (fun _ same => same) (fun _ _ after => after)
      ?_).bind fun _ => ?_) fs ready
  · intro _ after known harmless
    exact (known (harmless.double reaches double)).cachesSound_beside sound.indir2
  rintro middle ⟨⟨-, count⟩, marked⟩
  refine ((loadEntry_exits _ (rowBlock image fs.part node i) fixed sound.indir2 size
    (indirEntry_exits.conseq (fun _ ready => ready.swap) (fun _ _ found => ⟨found.1, found.2.swap⟩)
      fun _ _ => id)).conseq (fun _ same => same) ?_ ?_) middle marked.swap
  · rintro value after ⟨⟨inside, -, found⟩, known⟩
    rw [walkBlock_double sized small direct count single limit double inside]
    exact ⟨found, (known.mono (fun _ sound => sound) fun _ marked => marked.sound).cachesSound⟩
  · intro _ after known harmless
    exact ((known (harmless.row reaches double)).mono (fun _ sound => sound)
      fun _ marked => marked.sound).cachesSound

end Lookups

/-- The states that lookups on one volume come to, each of them `allowed` where
it was made. -/
inductive Lookups (machine : Machine) (data : Ext2Data) (allowed : Node → Nat → Fs → Prop) : Fs → Fs → Prop
  | nil (start : Fs) : Lookups machine data allowed start start
  | call {start fs after : Fs} {node : Node} {i : Nat} (lookups : Lookups machine data allowed start fs)
      (volume : node.data = data) (permitted : allowed node i fs)
      (returned : (ext2fsReadBlock machine node i fs).state? = some after) :
      Lookups machine data allowed start after

/-- One lookup keeps the caches sound, also when it fails. -/
theorem CachesSound.lookup {fs after : Fs} {node : Node} {i : Nat} (fixed : machine.Fixed image)
    (sound : CachesSound image node.data.log2Ext2BlockSize fs) (harmless : Harmless machine image node i fs)
    (returned : (ext2fsReadBlock machine node i fs).state? = some after) :
    Near fs after ∧ CachesSound image node.data.log2Ext2BlockSize after := by
  have exits := readBlock_exits node i fixed sound
  cases run : ext2fsReadBlock machine node i fs with
  | ok value final =>
      rw [run] at returned
      cases returned
      exact (exits.of_ok rfl run).2
  | error code final =>
      rw [run] at returned
      cases returned
      exact exits.of_error rfl run harmless
  | fault => rw [run] at returned; cases returned
  | undefined => rw [run] at returned; cases returned
  | unfinished => rw [run] at returned; cases returned

theorem Lookups.sound {data : Ext2Data} {fs : Fs} (fixed : machine.Fixed image)
    (sound : CachesSound image data.log2Ext2BlockSize start)
    (lookups : Lookups machine data (Harmless machine image) start fs) :
    Near start fs ∧ CachesSound image data.log2Ext2BlockSize fs := by
  induction lookups with
  | nil => exact ⟨.refl _, sound⟩
  | call lookups volume harmless returned ih =>
      obtain ⟨near, kept⟩ := ih
      subst volume
      obtain ⟨next, after⟩ := kept.lookup fixed harmless returned
      exact ⟨near.trans next, after⟩

/-- After any lookups on a volume, failed ones included, a lookup that succeeds
returns what the walk without caches finds, as long as no short read has left a
cached block with a part of another one in it. -/
theorem lookups_uncached {data : Ext2Data} {fs after : Fs} {node : Node} {i value : Nat}
    (fixed : machine.Fixed image) (sound : CachesSound image data.log2Ext2BlockSize start)
    (lookups : Lookups machine data (Harmless machine image) start fs) (volume : node.data = data)
    (returned : ext2fsReadBlock machine node i fs = .ok value after) :
    walkBlock image start.part node i () = .ok value () := by
  obtain ⟨near, kept⟩ := lookups.sound fixed sound
  subst volume
  have found := (readBlock_exits node i fixed kept).of_ok rfl returned
  rw [near.part] at found
  exact found.1

/-- A firmware whose second read delivers four bytes. -/
def stutteringMachine (disk : Image) : Machine :=
  { diskMachine disk with
    read := fun call _ offset nbytes =>
      { count := if call = 1 then 4 else nbytes, bytes := fun index => disk (offset + index) } }

theorem zeroDisk_sound (image : Nat → Image) (shift : Nat) : CachesSound image shift zeroDisk :=
  ⟨.unread 0 (.inr (.inl rfl)), .unread 0 (.inr (.inl rfl))⟩

/-- Two blocks of pointers, block 5 with a pointer to 6, and block 8 with one to 7. -/
def twoPointers : Image :=
  .ofRuns [(32768 + 5 * 1024, [6]), (32768 + 8 * 1024, [7])]

/-- A file with the given indirect block. -/
def indirNode (block : UInt8) : Node :=
  { zeroNode with inode := { raw := .ofRuns [(88, [block])] } }

/-- The partition is open, and the next read is the one that the firmware cuts off. -/
def interrupted : Fs := { zeroDisk with calls := 1 }

/-- A short read goes into an empty cache, which is filled again by the next lookup. -/
theorem lookups_uncached_sample : ∃ fs after,
    ext2fsReadBlock (stutteringMachine twoPointers) (indirNode 8) 12 interrupted = .error .devShortRead fs ∧
    ext2fsReadBlock (stutteringMachine twoPointers) (indirNode 5) 12 fs = .ok 6 after ∧
    walkBlock (fun _ => twoPointers) interrupted.part (indirNode 5) 12 () = .ok 6 () := by
  have fixed : (stutteringMachine twoPointers).Fixed fun _ => twoPointers := ⟨fun _ _ _ _ _ => rfl⟩
  have sound : CachesSound (fun _ => twoPointers) zeroNode.data.log2Ext2BlockSize interrupted :=
    ⟨.unread 0 (.inr (.inl rfl)), .unread 0 (.inr (.inl rfl))⟩
  have harmless : Harmless (stutteringMachine twoPointers) (fun _ => twoPointers) (indirNode 8) 12 interrupted := by
    refine ⟨fun _ _ damages => ?_, fun reaches => absurd reaches (by decide +kernel),
      fun reaches => absurd reaches (by decide +kernel)⟩
    rcases damages.marked with marked | unshifted
    · exact marked rfl
    · exact absurd unshifted (by decide +kernel)
  have code : (ext2fsReadBlock (stutteringMachine twoPointers) (indirNode 8) 12 interrupted).code? =
      some .devShortRead := by decide +kernel
  have run : ((ext2fsReadBlock (stutteringMachine twoPointers) (indirNode 8) 12 interrupted).state?.bind fun fs =>
      (ext2fsReadBlock (stutteringMachine twoPointers) (indirNode 5) 12 fs).result?.map Prod.fst) = some 6 := by
    decide +kernel
  obtain ⟨fs, failed, run⟩ := Option.bind_eq_some_iff.mp run
  obtain ⟨⟨_, after⟩, again, rfl⟩ := Option.map_eq_some_iff.mp run
  have again := Outcome.result?_eq_some.mp again
  have lookups : Lookups (stutteringMachine twoPointers) zeroNode.data
      (Harmless (stutteringMachine twoPointers) fun _ => twoPointers) interrupted fs :=
    .call (.nil _) (rfl : (indirNode 8).data = zeroNode.data) harmless failed
  exact ⟨fs, after, Outcome.eq_error code failed, again, lookups_uncached fixed sound lookups rfl again⟩

/-- A cached block is looked up after a short read has put four bytes of another
block in its place. -/
theorem lookups_poisoned :
    ¬∀ (machine : Machine) (image : Nat → Image) (data : Ext2Data) (start fs : Fs),
      machine.Fixed image → CachesSound image data.log2Ext2BlockSize start →
      Lookups machine data (fun _ _ _ => True) start fs →
      ∀ (node : Node) (i value : Nat) (after : Fs), node.data = data →
        ext2fsReadBlock machine node i fs = .ok value after →
        walkBlock image start.part node i () = .ok value () := by
  intro uncached
  have fixed : (stutteringMachine twoPointers).Fixed fun _ => twoPointers := ⟨fun _ _ _ _ _ => rfl⟩
  have sound := zeroDisk_sound (fun _ => twoPointers) zeroNode.data.log2Ext2BlockSize
  have run : ((ext2fsReadBlock (stutteringMachine twoPointers) (indirNode 5) 12 zeroDisk).state?.bind
      fun fs => (ext2fsReadBlock (stutteringMachine twoPointers) (indirNode 8) 12 fs).state?.bind
        fun fs => (ext2fsReadBlock (stutteringMachine twoPointers) (indirNode 5) 12 fs).result?.map
          Prod.fst) = some 7 := by decide +kernel
  obtain ⟨middle, first, run⟩ := Option.bind_eq_some_iff.mp run
  obtain ⟨fs, second, run⟩ := Option.bind_eq_some_iff.mp run
  obtain ⟨⟨_, after⟩, third, rfl⟩ := Option.map_eq_some_iff.mp run
  have walk := uncached (stutteringMachine twoPointers) (fun _ => twoPointers) zeroNode.data zeroDisk fs fixed
    sound (.call (.call (.nil _) (rfl : (indirNode 5).data = zeroNode.data) trivial first)
      (rfl : (indirNode 8).data = zeroNode.data) trivial second)
    (indirNode 5) 12 _ after rfl (Outcome.result?_eq_some.mp third)
  have truth : (walkBlock (fun _ => twoPointers) zeroDisk.part (indirNode 5) 12 ()).value? = some 6 := by
    decide +kernel
  rw [walk] at truth
  have same : 7 = 6 := Option.some.inj truth
  exact absurd same (by decide)

end IQuik.Ext2
