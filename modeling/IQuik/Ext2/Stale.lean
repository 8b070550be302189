import Mathlib.Data.Option.Basic
import IQuik.Ext2.Loads

namespace IQuik.Ext2

open IQuik.Data IQuik.Program IQuik.Storage

/-! # Stale bytes

The caches know only sector numbers, and nothing clears them when another partition
is opened. A byte of a block that was read from another partition is stale where the
open partition has another one, or none. A call that uses no stale byte does the same
when they are unknown.
-/

/-- What the open partition has in a cached block; the stale bytes are unknown. -/
def trustedBytes (image : Nat → Image) (part : Part) (cache : IndirCache) (block : Buffer) : Buffer := fun index =>
  if cache.blkno * 512 + cache.size < part.len ∧ block index = some (sectorImage image part cache.blkno 0 index) then
    block index
  else none

def trustedCache (image : Nat → Image) (part : Part) (cache : IndirCache) : IndirCache :=
  { cache with block := cache.block.map (trustedBytes image part cache) }

/-- The globals, where the stale bytes of both caches are unknown. -/
def trusted (image : Nat → Image) (fs : Fs) : Fs :=
  { fs with indir1 := trustedCache image fs.part fs.indir1, indir2 := trustedCache image fs.part fs.indir2 }

variable {machine : Machine} {image : Nat → Image} {part : Part} {keep : Fs → Fs → Prop}

/-- What is left in a trusted cache the open partition has there. -/
theorem trustedCache_known (cache : IndirCache) : CacheKnown True image part (trustedCache image part cache) := by
  refine .partly trivial fun block held index byte known => ?_
  obtain ⟨contents, -, rfl⟩ := Option.map_eq_some_iff.mp held
  unfold trustedBytes at known
  split at known
  next right => exact ⟨right.1, Option.some.inj (known.symm.trans right.2)⟩
  next => cases known

/-- The same cache, of whose bytes less may be known. -/
structure CacheWithin (whole known : IndirCache) : Prop where
  size : whole.size = known.size
  blkno : whole.blkno = known.blkno
  block : Option.Rel Buffer.Within whole.block known.block

theorem CacheWithin.blocks {whole known : IndirCache} (within : CacheWithin whole known) :
    (whole.block = none ∧ known.block = none) ∨
    ∃ contents bytes, whole.block = some contents ∧ known.block = some bytes ∧ contents.Within bytes := by
  obtain ⟨block, size, blkno⟩ := whole
  obtain ⟨block', size', blkno'⟩ := known
  cases within.block with
  | none => exact .inl ⟨rfl, rfl⟩
  | some bytes => exact .inr ⟨_, _, rfl, rfl, bytes⟩

theorem CacheWithin.refl (cache : IndirCache) : CacheWithin cache cache := by
  refine ⟨rfl, rfl, ?_⟩
  cases cache.block with
  | none => exact .none
  | some block => exact .some (.refl block)

theorem trustedCache_within (cache : IndirCache) : CacheWithin cache (trustedCache image part cache) := by
  refine ⟨rfl, rfl, ?_⟩
  unfold trustedCache
  cases cache.block with
  | none => exact .none
  | some block =>
      refine .some fun index => ?_
      unfold trustedBytes
      split
      · exact .inr rfl
      · exact .inl rfl

/-- Two states of which the second one knows less of the cached bytes. -/
structure Thinned (keep : Fs → Fs → Prop) (left right : Fs) : Prop where
  part : left.part = right.part
  calls : left.calls = right.calls
  mallocs : left.mallocs = right.mallocs
  indir1 : CacheWithin left.indir1 right.indir1
  indir2 : CacheWithin left.indir2 right.indir2
  keep : keep left right

namespace Thinned

variable {left right : Fs}

theorem slot (thinned : Thinned keep left right) (slot : Slot) : CacheWithin (slot.get left) (slot.get right) := by
  cases slot with
  | indir1 => exact thinned.indir1
  | indir2 => exact thinned.indir2

theorem put (stable : Stable keep) (thinned : Thinned keep left right) (slot : Slot) {whole known : IndirCache}
    (within : CacheWithin whole known) : Thinned keep (slot.put whole left) (slot.put known right) := by
  have kept := stable _ _ _ _ (slot.near_put whole left (.refl left)) (slot.near_put known right (.refl right))
    thinned.keep
  cases slot with
  | indir1 => exact ⟨thinned.part, thinned.calls, thinned.mallocs, within, thinned.indir2, kept⟩
  | indir2 => exact ⟨thinned.part, thinned.calls, thinned.mallocs, thinned.indir1, within, kept⟩

theorem numbered (stable : Stable keep) (thinned : Thinned keep left right) {calls calls' mallocs mallocs' : Nat}
    (called : calls = calls') (asked : mallocs = mallocs') :
    Thinned keep { left with calls, mallocs } { right with calls := calls', mallocs := mallocs' } :=
  ⟨thinned.part, called, asked, thinned.indir1, thinned.indir2,
    stable _ _ _ _ ⟨_, _, _, _, rfl⟩ ⟨_, _, _, _, rfl⟩ thinned.keep⟩

end Thinned

section Calls

variable (stable : Stable keep)
include stable

theorem malloc_thinned (size : Nat) :
    RunsAlike False True (Thinned keep) (fun _ => True) (malloc machine size) (malloc machine size) := by
  intro left right thinned
  have asked := thinned.numbered stable thinned.calls (congrArg (· + 1) thinned.mallocs)
  unfold malloc
  by_cases granted : machine.grants left.mallocs size = true
  · rw [if_pos granted, if_pos (thinned.mallocs ▸ granted)]
    exact ⟨rfl, trivial, asked⟩
  · rw [if_neg granted, if_neg (thinned.mallocs ▸ granted)]
    exact .inr ⟨rfl, asked⟩

/-- A read stores the same in both runs. -/
theorem partRead_thinned {buffers : Buffer → Buffer → Prop}
    (stores : ∀ {before after}, buffers before after → ∀ place count bytes,
      buffers (before.store place count bytes) (after.store place count bytes))
    (sector byteOffset byteLen place : Nat) :
    RunsAlike False True (fun left right : Fs × Buffer => Thinned keep left.1 right.1 ∧ buffers left.2 right.2)
      (fun _ => True) (partRead machine sector byteOffset byteLen place)
      (partRead machine sector byteOffset byteLen place) := by
  have delivers : ∀ dev offset, RunsAlike False True
      (fun left right : Fs × Buffer => Thinned keep left.1 right.1 ∧ buffers left.2 right.2) (fun _ => True)
      (Prog.onFirst (diskRead machine dev byteLen offset)) (Prog.onFirst (diskRead machine dev byteLen offset)) := by
    rintro dev offset ⟨left, before⟩ ⟨right, after⟩ ⟨thinned, same⟩
    have called := thinned.numbered stable (congrArg (· + 1) thinned.calls) thinned.mallocs
    unfold Prog.onFirst diskRead
    by_cases nothing : byteLen = 0
    · simp only [if_pos nothing]
      exact ⟨rfl, trivial, thinned, same⟩
    · simp only [if_neg nothing]
      exact ⟨by rw [thinned.calls], trivial, called, same⟩
  unfold partRead
  refine .bindVia _ (fun _ => True) (.view fun _ _ states => ⟨states.1.part, trivial⟩) fun part _ => ?_
  refine .ite (fun _ => .fail _ same_related) fun _ => ?_
  refine .bind (delivers _ _) fun answer _ => ?_
  refine .bindVia (fun left right => Thinned keep left.1 right.1 ∧ buffers left.2 right.2) _
    (.update fun _ _ states => ⟨states.1, stores states.2 _ _ _⟩) fun _ _ => ?_
  exact .ite (fun _ => .pure trivial) fun _ => .fail _ same_related

theorem allocateIndir_thinned (slot : Slot) (blksz : Nat) :
    RunsAlike False True (Thinned keep) (fun _ => True) (allocateIndir machine slot blksz)
      (allocateIndir machine slot blksz) :=
  .bind (malloc_thinned stable _) fun _ _ => .update fun _ _ thinned => thinned.put stable slot (.refl _)

theorem ensureIndir_thinned (slot : Slot) (blksz : Nat) :
    RunsAlike False True (Thinned keep) (fun _ => True) (ensureIndir machine slot blksz)
      (ensureIndir machine slot blksz) := by
  have resized : RunsAlike False True (Thinned keep) (fun _ => True)
      (do
        let cache ← Prog.view slot.get
        if blksz ≠ cache.size then do
          Prog.update (slot.put .empty)
          allocateIndir machine slot blksz)
      (do
        let cache ← Prog.view slot.get
        if blksz ≠ cache.size then do
          Prog.update (slot.put .empty)
          allocateIndir machine slot blksz) := by
    refine .viewed fun left right thinned => ?_
    rw [(thinned.slot slot).size]
    exact Prog.Agrees.ite (fun _ => .bind (.update fun _ _ thinned => thinned.put stable slot (.refl _))
      fun _ _ => allocateIndir_thinned stable slot blksz) (fun _ => .pure trivial) left right thinned
  refine .viewed fun left right thinned => ?_
  have unallocated : (slot.get left).block.isNone = (slot.get right).block.isNone := by
    obtain ⟨none, none'⟩ | ⟨contents, bytes, some, some', -⟩ := (thinned.slot slot).blocks
    · rw [none, none']
    · rw [some, some']
      rfl
  rw [unallocated]
  exact Prog.Agrees.ite (fun _ => .bind (allocateIndir_thinned stable slot blksz) fun _ _ => resized)
    (fun _ => resized) left right thinned

theorem fillIndir_thinned (slot : Slot) (blksz sector : Nat) :
    RunsAlike False True (Thinned keep) (fun _ => True) (fillIndir machine slot blksz sector)
      (fillIndir machine slot blksz sector) := by
  have placed : ∀ {left right : Fs × Buffer}, Thinned keep left.1 right.1 ∧ left.2.Within right.2 →
      Thinned keep (slot.put { slot.get left.1 with block := some left.2 } left.1)
        (slot.put { slot.get right.1 with block := some right.2 } right.1) := fun states =>
    states.1.put stable slot ⟨(states.1.slot slot).size, (states.1.slot slot).blkno, .some states.2⟩
  refine .bind (.inPlace (partRead_thinned stable (fun within => within.store) sector 0 blksz 0)
    (fun left right thinned => ⟨thinned, ?_⟩) (fun _ _ => placed) fun _ _ => placed) fun _ _ => ?_
  · obtain ⟨none, none'⟩ | ⟨contents, bytes, some, some', within⟩ := (thinned.slot slot).blocks
    · rw [none, none']
      exact .refl _
    · rw [some, some']
      exact within
  · exact .update fun _ _ thinned =>
      thinned.put stable slot ⟨(thinned.slot slot).size, rfl, (thinned.slot slot).block⟩

theorem refreshIndir_thinned (slot : Slot) (blksz sector : Nat) :
    RunsAlike False True (Thinned keep) (fun _ => True) (refreshIndir machine slot blksz sector)
      (refreshIndir machine slot blksz sector) := by
  refine .viewed fun left right thinned => ?_
  rw [(thinned.slot slot).blkno]
  exact Prog.Agrees.ite (fun _ => fillIndir_thinned stable slot blksz sector) (fun _ => .pure trivial) left right
    thinned

omit stable in
/-- A pointer that is known is the one of the whole block. -/
theorem indirEntry_thinned (slot : Slot) (index : Nat) :
    RunsAlike False True (Thinned keep) (fun _ => True) (indirEntry slot index) (indirEntry slot index) := by
  refine .viewed fun left right states => ?_
  rw [(states.slot slot).size]
  by_cases inside : 4 * index + 4 ≤ (slot.get right).size
  rotate_left
  · rw [Prog.demand_neg inside]
    trivial
  rw [Prog.demand_pos inside, Prog.pure_bind, Prog.pure_bind]
  cases known : (slot.get right).block.bind fun block => block.le32? (4 * index) with
  | none => exact .of_short_right trivial rfl
  | some value =>
      have whole : ((slot.get left).block.bind fun block => block.le32? (4 * index)) = some value := by
        obtain ⟨-, none'⟩ | ⟨contents, bytes, some, some', within⟩ := (states.slot slot).blocks
        · rw [none'] at known
          cases known
        · rw [some'] at known
          rw [some]
          exact within.le32? known
      rw [whole]
      exact ⟨rfl, trivial, states⟩

theorem loadIndir_thinned (slot : Slot) (blksz log2Blksz : Nat) {pointer : FsProg Nat}
    (points : RunsAlike False True (Thinned keep) (fun _ => True) pointer pointer) :
    RunsAlike False True (Thinned keep) (fun _ => True) (loadIndir machine slot blksz log2Blksz pointer)
      (loadIndir machine slot blksz log2Blksz pointer) := by
  refine .bind (ensureIndir_thinned stable slot blksz) fun _ _ => ?_
  refine .bind points fun entry _ => ?_
  exact .bind (shl32_agrees _ _) fun sector _ => refreshIndir_thinned stable slot blksz sector

theorem readBlock_thinned (node : Node) (fileblock : Nat) :
    RunsAlike False True (Thinned keep) (fun _ => True) (ext2fsReadBlock machine node fileblock)
      (ext2fsReadBlock machine node fileblock) := by
  unfold ext2fsReadBlock
  refine .bind (ext2BlockSizeInt_agrees _) fun blksz _ => ?_
  refine .bind (.demand _) fun _ _ => ?_
  refine .ite (fun _ => .pure trivial) fun _ => ?_
  refine .ite (fun _ => ?_) fun _ => ?_
  · exact .bind (loadIndir_thinned stable .indir1 _ _ (.pure trivial)) fun _ _ => indirEntry_thinned _ _
  refine .bind (.demand _) fun _ _ => ?_
  refine .ite (fun _ => ?_) fun _ => .fail _ same_related
  refine .bind (loadIndir_thinned stable .indir1 _ _ (.pure trivial)) fun _ _ => ?_
  exact .bind (loadIndir_thinned stable .indir2 _ _ (indirEntry_thinned _ _)) fun _ _ => indirEntry_thinned _ _

end Calls

/-- A run and the same run with less known of the cached bytes are twins. The second
one may come to a pointer that is not known. -/
theorem Twins.thinned (machine : Machine) : Twins machine machine False True (fun _ => True) Thinned where
  keeps thinned := thinned.keep
  change thinned left right kept := by
    refine ⟨?_, ?_, ?_, ?_, ?_, kept⟩
    · rw [left.part, right.part, thinned.part]
    · rw [left.calls, right.calls, thinned.calls]
    · rw [left.mallocs, right.mallocs, thinned.mallocs]
    · rw [left.indir1, right.indir1]
      exact thinned.indir1
    · rw [left.indir2, right.indir2]
      exact thinned.indir2
  mallocs stable size := malloc_thinned stable size
  reads stable sector byteOffset byteLen place :=
    partRead_thinned stable (fun same _ _ _ => by rw [same]) sector byteOffset byteLen place
  blocks stable node _ fileblock := readBlock_thinned stable node fileblock

end IQuik.Ext2
