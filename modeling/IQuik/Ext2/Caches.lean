import IQuik.Ext2.Reading
import IQuik.Storage.Reads

namespace IQuik.Ext2

open IQuik.Data IQuik.Program IQuik.Storage

/-! # The indirect-block caches

While one partition is open, a cache holds a block of it or nothing at all. A
lookup then finds what it would find without the caches, and `walkBlock` is that
lookup.
-/

/-- What a cache may hold while `part` is open. -/
inductive CacheCoherent (image : Nat → Image) (part : Part) : IndirCache → Prop
  | unallocated (size : Nat) : CacheCoherent image part { block := none, size, blkno := noBlkno }
  | blank (size : Nat) :
      CacheCoherent image part { block := some .blank, size, blkno := noBlkno }
  | loaded {block : Buffer} {size blkno : Nat}
      (inside : blkno * 512 + size < part.len)
      (bytes : block.Holds 0 size (sectorImage image part blkno 0)) :
      CacheCoherent image part { block := some block, size, blkno }

/-- The same, where some bytes of a block may also be unknown, if `blanked`. -/
inductive CacheKnown (blanked : Prop) (image : Nat → Image) (part : Part) : IndirCache → Prop
  | coherent {cache : IndirCache} (coherent : CacheCoherent image part cache) : CacheKnown blanked image part cache
  | partly (allowed : blanked) {cache : IndirCache}
      (bytes : ∀ block, cache.block = some block → ∀ index byte, block index = some byte →
        cache.blkno * 512 + cache.size < part.len ∧ byte = sectorImage image part cache.blkno 0 index) :
      CacheKnown blanked image part cache

theorem cacheKnown_false (image : Nat → Image) (part : Part) : CacheKnown False image part = CacheCoherent image part := by
  funext cache
  refine propext ⟨fun known => ?_, .coherent⟩
  cases known with
  | coherent coherent => exact coherent
  | partly allowed => exact allowed.elim

/-- Nothing but the caches and the numbers of the calls has changed. -/
def Near (start fs : Fs) : Prop :=
  ∃ calls mallocs indir1 indir2, fs = { start with calls, mallocs, indir1, indir2 }

/-- Both caches are coherent with the open partition. -/
structure Warm (image : Nat → Image) (start fs : Fs) : Prop where
  near : Near start fs
  indir1 : CacheCoherent image start.part fs.indir1
  indir2 : CacheCoherent image start.part fs.indir2

/-- Of both caches it is known what they hold. -/
structure Known (blanked : Prop) (image : Nat → Image) (start fs : Fs) : Prop where
  near : Near start fs
  indir1 : CacheKnown blanked image start.part fs.indir1
  indir2 : CacheKnown blanked image start.part fs.indir2

theorem known_false {image : Nat → Image} {start fs : Fs} : Known False image start fs ↔ Warm image start fs := by
  constructor
  · rintro ⟨near, indir1, indir2⟩
    rw [cacheKnown_false] at indir1 indir2
    exact ⟨near, indir1, indir2⟩
  · exact fun warm => ⟨warm.near, .coherent warm.indir1, .coherent warm.indir2⟩

theorem Near.refl (fs : Fs) : Near fs fs := ⟨fs.calls, fs.mallocs, fs.indir1, fs.indir2, rfl⟩

theorem Near.part {start fs : Fs} (near : Near start fs) : fs.part = start.part := by
  obtain ⟨_, _, _, _, rfl⟩ := near
  rfl

theorem Near.file {start fs : Fs} (near : Near start fs) : fs.file = start.file := by
  obtain ⟨_, _, _, _, rfl⟩ := near
  rfl

theorem Near.inodeSize {start fs : Fs} (near : Near start fs) : fs.inodeSize = start.inodeSize := by
  obtain ⟨_, _, _, _, rfl⟩ := near
  rfl

theorem Near.root {start fs : Fs} (near : Near start fs) : fs.root = start.root := by
  obtain ⟨_, _, _, _, rfl⟩ := near
  rfl

theorem Near.symlinknest {start fs : Fs} (near : Near start fs) : fs.symlinknest = start.symlinknest := by
  obtain ⟨_, _, _, _, rfl⟩ := near
  rfl

theorem Near.trans {start middle fs : Fs} (first : Near start middle) (second : Near middle fs) :
    Near start fs := by
  obtain ⟨_, _, _, _, rfl⟩ := first
  obtain ⟨_, _, _, _, rfl⟩ := second
  exact ⟨_, _, _, _, rfl⟩

namespace Slot

def other : Slot → Slot
  | .indir1 => .indir2
  | .indir2 => .indir1

variable (slot : Slot) (cache : IndirCache) (fs : Fs)

@[simp] theorem get_put : slot.get (slot.put cache fs) = cache := by cases slot <;> rfl

@[simp] theorem get_other_put : slot.other.get (slot.put cache fs) = slot.other.get fs := by
  cases slot <;> rfl

@[simp] theorem get_put_other : slot.get (slot.other.put cache fs) = slot.get fs := by
  cases slot <;> rfl

theorem near_put {start : Fs} (near : Near start fs) : Near start (slot.put cache fs) := by
  obtain ⟨_, _, _, _, rfl⟩ := near
  cases slot <;> exact ⟨_, _, _, _, rfl⟩

@[simp] theorem get_calls (calls : Nat) : slot.get { fs with calls } = slot.get fs := by
  cases slot <;> rfl

@[simp] theorem get_mallocs (mallocs : Nat) : slot.get { fs with mallocs } = slot.get fs := by
  cases slot <;> rfl

end Slot

/-- What is known of the cache a lookup works with and of the other one. -/
structure AtSlot (start : Fs) (slot : Slot) (own others : IndirCache → Prop) (fs : Fs) : Prop where
  near : Near start fs
  own : own (slot.get fs)
  others : others (slot.other.get fs)

namespace AtSlot

variable {start fs : Fs} {slot : Slot} {own own' others : IndirCache → Prop} {image : Nat → Image}

theorem put (at' : AtSlot start slot own others fs) {cache : IndirCache} (holds : own' cache) :
    AtSlot start slot own' others (slot.put cache fs) where
  near := slot.near_put cache fs at'.near
  own := by rwa [slot.get_put]
  others := by rw [slot.get_other_put]; exact at'.others

theorem putAny (at' : AtSlot start slot own others fs) (cache : IndirCache) :
    AtSlot start slot (fun _ => True) others (slot.put cache fs) :=
  at'.put trivial

theorem calls (at' : AtSlot start slot own others fs) (calls : Nat) :
    AtSlot start slot own others { fs with calls } where
  near := at'.near.trans ⟨_, _, _, _, rfl⟩
  own := by rw [slot.get_calls]; exact at'.own
  others := by rw [Slot.get_calls]; exact at'.others

theorem mallocs (at' : AtSlot start slot own others fs) (mallocs : Nat) :
    AtSlot start slot own others { fs with mallocs } where
  near := at'.near.trans ⟨_, _, _, _, rfl⟩
  own := by rw [slot.get_mallocs]; exact at'.own
  others := by rw [Slot.get_mallocs]; exact at'.others

theorem swap (at' : AtSlot start slot own others fs) : AtSlot start slot.other others own fs where
  near := at'.near
  own := at'.others
  others := by
    have same : slot.other.other = slot := by cases slot <;> rfl
    rw [same]
    exact at'.own

theorem mono {others' : IndirCache → Prop} (at' : AtSlot start slot own others fs)
    (owns : ∀ cache, own cache → own' cache) (keeps : ∀ cache, others cache → others' cache) :
    AtSlot start slot own' others' fs :=
  ⟨at'.near, owns _ at'.own, keeps _ at'.others⟩

theorem known {blanked : Prop} (at' : AtSlot start slot (CacheKnown blanked image start.part)
    (CacheKnown blanked image start.part) fs) : Known blanked image start fs := by
  cases slot with
  | indir1 => exact ⟨at'.near, at'.own, at'.others⟩
  | indir2 => exact ⟨at'.near, at'.others, at'.own⟩

theorem warm (at' : AtSlot start slot (CacheCoherent image start.part)
    (CacheCoherent image start.part) fs) : Warm image start fs :=
  known_false.mp (at'.mono (fun _ => .coherent) fun _ => .coherent).known

end AtSlot

theorem Known.atSlot {blanked : Prop} {image : Nat → Image} {start fs : Fs} (known : Known blanked image start fs)
    (slot : Slot) :
    AtSlot start slot (CacheKnown blanked image start.part) (CacheKnown blanked image start.part) fs := by
  cases slot with
  | indir1 => exact ⟨known.near, known.indir1, known.indir2⟩
  | indir2 => exact ⟨known.near, known.indir2, known.indir1⟩

theorem Warm.atSlot {image : Nat → Image} {start fs : Fs} (warm : Warm image start fs)
    (slot : Slot) :
    AtSlot start slot (CacheCoherent image start.part) (CacheCoherent image start.part) fs := by
  cases slot with
  | indir1 => exact ⟨warm.near, warm.indir1, warm.indir2⟩
  | indir2 => exact ⟨warm.near, warm.indir2, warm.indir1⟩

/-- A cache with a block of `size` bytes, ready to be read into. -/
structure Prepared (blanked : Prop) (image : Nat → Image) (part : Part) (size : Nat) (cache : IndirCache) :
    Prop where
  known : CacheKnown blanked image part cache
  allocated : cache.block.isSome
  size : cache.size = size

/-- A cache that holds the block at `sector`, or as much of it as is known. -/
inductive Loaded (blanked : Prop) (image : Nat → Image) (part : Part) (size sector : Nat) : IndirCache → Prop
  | whole {block : Buffer} (inside : sector * 512 + size < part.len)
      (bytes : block.Holds 0 size (sectorImage image part sector 0)) :
      Loaded blanked image part size sector { block := some block, size, blkno := sector }
  | partly (allowed : blanked) {block : Buffer} (inside : sector * 512 + size < part.len)
      (within : Buffer.Within (fun index => some (sectorImage image part sector 0 index)) block) :
      Loaded blanked image part size sector { block := some block, size, blkno := sector }

theorem Loaded.known {blanked : Prop} {image : Nat → Image} {part : Part} {size sector : Nat}
    {cache : IndirCache} (loaded : Loaded blanked image part size sector cache) :
    CacheKnown blanked image part cache := by
  cases loaded with
  | whole inside bytes => exact .coherent (.loaded inside bytes)
  | partly allowed inside within =>
      refine .partly allowed fun block held index byte known => ⟨inside, ?_⟩
      cases held
      exact (Option.some.inj (within.byte known)).symm

/-- A known cache is loaded, or has nothing in it that can be read. -/
theorem CacheKnown.allocated {blanked : Prop} {image : Nat → Image} {part : Part} {cache : IndirCache}
    (known : CacheKnown blanked image part cache) (allocated : cache.block.isSome) :
    (cache.blkno * 512 + cache.size < part.len ∧ Loaded blanked image part cache.size cache.blkno cache) ∨
    ((blanked ∨ cache.blkno = noBlkno) ∧ cache.block = some .blank) := by
  cases known with
  | coherent coherent =>
      cases coherent with
      | unallocated => cases allocated
      | blank => exact .inr ⟨.inr rfl, rfl⟩
      | loaded inside bytes => exact .inl ⟨inside, .whole inside bytes⟩
  | partly unread bytes =>
      obtain ⟨contents, size, blkno⟩ := cache
      obtain ⟨block, rfl⟩ := Option.isSome_iff_exists.mp allocated
      by_cases inside : blkno * 512 + size < part.len
      · refine .inl ⟨inside, .partly unread inside fun index => ?_⟩
        cases known : block index with
        | none => exact .inl rfl
        | some byte => exact .inr (congrArg some (bytes block rfl index byte known).2)
      · refine .inr ⟨.inl unread, congrArg some (funext fun index => ?_)⟩
        exact Option.eq_none_iff_forall_ne_some.mpr fun byte known => inside (bytes block rfl index byte known).1

section Lookup

variable {machine : Machine} {image : Nat → Image} {start fs : Fs} {slot : Slot}
  {own others : IndirCache → Prop} {short blanked : Prop} {blksz sector : Nat}

theorem allocateIndir_cases (machine : Machine) (slot : Slot) (blksz : Nat) (fs : Fs) :
    (∃ mallocs, allocateIndir machine slot blksz fs =
      .ok () (slot.put { block := some .blank, size := blksz, blkno := noBlkno }
        { fs with mallocs })) ∨
    (¬machine.Reliable ∧ ∃ after, allocateIndir machine slot blksz fs = .error .noMem after) := by
  unfold allocateIndir
  by_cases granted : machine.grants fs.mallocs blksz = true
  · refine .inl ⟨fs.mallocs + 1, ?_⟩
    rw [Prog.bind_run_ok (if_pos granted : malloc machine blksz fs = _)]
    rfl
  · exact .inr ⟨fun reliable => granted (reliable.granted _ _), { fs with mallocs := fs.mallocs + 1 },
      Prog.bind_run_error (if_neg granted : malloc machine blksz fs = _)⟩

/-- A new block makes the cache ready, unless the heap is exhausted. -/
theorem allocateIndir_prepares (reliable : short ∨ machine.Reliable) (blksz : Nat)
    (at' : AtSlot start slot own others fs) :
    (∃ after, allocateIndir machine slot blksz fs = .ok () after ∧
      AtSlot start slot (Prepared blanked image start.part blksz) others after) ∨
    (short ∧ (allocateIndir machine slot blksz fs).value? = none) := by
  rcases allocateIndir_cases machine slot blksz fs with ⟨mallocs, run⟩ | ⟨refused, after, run⟩
  · exact .inl ⟨_, run, (at'.mallocs mallocs).put ⟨.coherent (.blank blksz), rfl, rfl⟩⟩
  · exact .inr ⟨reliable.resolve_right refused, by rw [run]; rfl⟩

theorem ensureIndir_cases (reliable : short ∨ machine.Reliable) (blksz : Nat)
    (at' : AtSlot start slot (CacheKnown blanked image start.part) others fs) :
    (∃ after, ensureIndir machine slot blksz fs = .ok () after ∧
      AtSlot start slot (Prepared blanked image start.part blksz) others after) ∨
    (short ∧ (ensureIndir machine slot blksz fs).value? = none) := by
  unfold ensureIndir
  rw [Prog.view_bind]
  by_cases unallocated : (slot.get fs).block.isNone
  · rw [if_pos unallocated]
    rcases allocateIndir_prepares reliable blksz at' with ⟨after, run, ready⟩ | ⟨stops, run⟩
    · refine .inl ⟨after, ?_, ready⟩
      rw [Prog.bind_run_ok run]
      beta_reduce
      rw [Prog.view_bind, if_neg (not_not.mpr ready.own.size.symm)]
      rfl
    · exact .inr ⟨stops, Prog.bind_value?_none run⟩
  · rw [if_neg unallocated]
    beta_reduce
    rw [Prog.view_bind]
    by_cases fits : blksz = (slot.get fs).size
    · refine .inl ⟨fs, by rw [if_neg (not_not.mpr fits)]; rfl, at'.near, ⟨at'.own, ?_, fits.symm⟩,
        at'.others⟩
      simpa [Option.isSome_iff_ne_none] using unallocated
    · rw [if_pos fits, Prog.update_bind]
      exact allocateIndir_prepares reliable blksz (at'.putAny .empty)

theorem fillIndir_cases (fixed : machine.Fixed image) (reliable : short ∨ machine.Reliable)
    (sector : Nat) (at' : AtSlot start slot (Prepared blanked image start.part blksz) others fs) :
    (start.part.len ≤ sector * 512 + blksz ∧ ∃ after,
      fillIndir machine slot blksz sector fs = .error .partBeyond after ∧
      AtSlot start slot (CacheKnown blanked image start.part) others after) ∨
    (sector * 512 + blksz < start.part.len ∧ ∃ after,
      fillIndir machine slot blksz sector fs = .ok () after ∧
      AtSlot start slot (Loaded blanked image start.part blksz sector) others after) ∨
    (short ∧ (fillIndir machine slot blksz sector fs).value? = none) := by
  unfold fillIndir
  obtain ⟨block, allocated⟩ := Option.isSome_iff_exists.mp at'.own.allocated
  have contents : ((slot.get fs).block).getD .blank = block := by rw [allocated]; rfl
  have same : { slot.get fs with block := some block } = slot.get fs := by rw [← allocated]
  have part := at'.near.part
  rcases partRead_cases fixed fs (((slot.get fs).block).getD .blank) sector 0 blksz 0 with
    ⟨beyond, run⟩ | ⟨inside, calls, run⟩ | ⟨-, unreliable, calls, count, -, run⟩
  · refine .inl ⟨by simpa [part] using beyond, _,
      Prog.bind_run_error (Prog.inPlace_run_error run), ?_⟩
    simp only [contents, same]
    exact at'.put at'.own.known
  · refine .inr (.inl ⟨by simpa [part] using inside, _,
      Prog.bind_run_ok (Prog.inPlace_run_ok run), ?_⟩)
    have stored := Buffer.store_holds block 0 blksz (sectorImage image start.part sector 0)
    refine ((at'.calls calls).putAny _).put ?_
    simp only [Slot.get_put, Slot.get_calls, at'.own.size, contents]
    rw [part]
    exact .whole (by simpa [part] using inside) stored
  · refine .inr (.inr ⟨reliable.resolve_right unreliable, ?_⟩)
    exact Prog.bind_value?_error (Prog.inPlace_run_error run)

/-- A lookup that finds a block: the cached one, or the one it reads. The mark
of an empty cache is a number too, so a lookup of just that sector can find a
block nobody read. -/
theorem refreshIndir_cases (fixed : machine.Fixed image) (reliable : short ∨ machine.Reliable)
    (allowed : blanked → short) (unmarked : short ∨ sector ≠ noBlkno)
    (at' : AtSlot start slot (Prepared blanked image start.part blksz) others fs) :
    (start.part.len ≤ sector * 512 + blksz ∧ ∃ after,
      refreshIndir machine slot blksz sector fs = .error .partBeyond after ∧
      AtSlot start slot (CacheKnown blanked image start.part) others after) ∨
    (sector * 512 + blksz < start.part.len ∧ ∃ after,
      refreshIndir machine slot blksz sector fs = .ok () after ∧
      AtSlot start slot (Loaded blanked image start.part blksz sector) others after) ∨
    (short ∧ (refreshIndir machine slot blksz sector fs).value? = none) ∨
    (short ∧ ∃ after, refreshIndir machine slot blksz sector fs = .ok () after ∧
      AtSlot start slot (fun cache => cache.block = some .blank) others after) := by
  unfold refreshIndir
  rw [Prog.view_bind]
  by_cases hit : sector = (slot.get fs).blkno
  · rw [if_neg (not_not.mpr hit)]
    obtain ⟨known, allocated, size⟩ := at'.own
    rcases known.allocated allocated with ⟨inside, loaded⟩ | ⟨reason, blank⟩
    · rw [size, ← hit] at inside loaded
      exact .inr (.inl ⟨inside, fs, rfl, at'.near, loaded, at'.others⟩)
    · have stops : short := reason.elim allowed fun marked => unmarked.resolve_right (not_not.mpr (hit.trans marked))
      exact .inr (.inr (.inr ⟨stops, fs, rfl, at'.near, blank, at'.others⟩))
  · rw [if_pos hit]
    rcases fillIndir_cases fixed reliable sector at' with beyond | filled | stops
    · exact .inl beyond
    · exact .inr (.inl filled)
    · exact .inr (.inr (.inl stops))

/-- A lookup and what comes after it, against the same without caches. -/
theorem refreshIndir_agrees {α : Type} {rest : FsProg α} {next : Prog QuikErr Unit α}
    {final broken : Fs → Unit → Prop} {holds : α → Prop} (fixed : machine.Fixed image)
    (reliable : short ∨ machine.Reliable) (allowed : blanked → short) (unmarked : short ∨ sector ≠ noBlkno)
    (breaks : ∀ fs, AtSlot start slot (CacheKnown blanked image start.part) others fs → broken fs ())
    (found : sector * 512 + blksz < start.part.len →
      Prog.Agrees short False
        (fun fs _ => AtSlot start slot (Loaded blanked image start.part blksz sector) others fs)
        final broken holds rest next)
    (unread : ∀ fs, AtSlot start slot (fun cache => cache.block = some .blank) others fs →
      (rest fs).value? = none) :
    Prog.Agrees short False
      (fun fs _ => AtSlot start slot (Prepared blanked image start.part blksz) others fs) final broken holds
      (refreshIndir machine slot blksz sector >>= fun _ => rest)
      (if start.part.len ≤ sector * 512 + blksz then Prog.fail .partBeyond else next) := by
  intro fs _ ready
  rcases refreshIndir_cases fixed reliable allowed unmarked ready with
    ⟨beyond, after, run, coherent⟩ | ⟨inside, after, run, loaded⟩ | ⟨stops, run⟩ |
    ⟨stops, after, run, blank⟩
  · rw [if_pos beyond, Prog.bind_run_error run]
    exact .inr ⟨rfl, breaks after coherent⟩
  · rw [if_neg (Nat.not_le_of_lt inside), Prog.bind_run_ok run]
    exact found inside after () loaded
  · exact .of_short_left stops (Prog.bind_value?_none run)
  · refine .of_short_left stops ?_
    rw [Prog.bind_run_ok run]
    exact unread after blank

theorem ensureIndir_agrees {broken : Fs → Unit → Prop} (reliable : short ∨ machine.Reliable) :
    Prog.Agrees short False
      (fun fs (_ : Unit) => AtSlot start slot (CacheKnown blanked image start.part) others fs)
      (fun fs _ => AtSlot start slot (Prepared blanked image start.part blksz) others fs) broken
      (fun _ => True)
      (ensureIndir machine slot blksz) (pure ()) := by
  intro fs _ coherent
  rcases ensureIndir_cases reliable blksz coherent with
    ⟨after, run, ready⟩ | ⟨stops, run⟩
  · rw [run]
    exact ⟨rfl, trivial, ready⟩
  · exact .of_short_left stops run

theorem shl32_agrees {σ τ : Type} {shortLeft shortRight : Prop} {related broken : σ → τ → Prop}
    (value count : Nat) :
    Prog.Agrees shortLeft shortRight related related broken
      (fun shifted => count < 32 ∧ shifted = value * 2 ^ count % 2 ^ 32) (shl32 value count)
      (shl32 value count) := by
  unfold shl32
  refine .bind (.arith (count < 32)) fun _ known => ?_
  exact .pure ⟨known, rfl⟩

/-- A pointer of a loaded block, unless one of its bytes is not known. -/
theorem indirEntry_loaded {index : Nat} (bound : 4 * index + 4 ≤ blksz)
    (at' : AtSlot start slot (Loaded blanked image start.part blksz sector) others fs) :
    indirEntry slot index fs = .ok ((sectorImage image start.part sector 0).le32 (4 * index)) fs ∨
    blanked ∧ (indirEntry slot index fs).value? = none := by
  have loaded := at'.own
  unfold indirEntry
  rw [Prog.view_bind]
  generalize slot.get fs = cache at loaded
  cases loaded with
  | whole inside bytes =>
      rw [Prog.demand_pos bound, Prog.pure_bind, Option.bind_some, bytes.le32? bound]
      exact .inl rfl
  | partly unread inside within =>
      rename_i block
      rw [Prog.demand_pos bound, Prog.pure_bind, Option.bind_some]
      cases known : block.le32? (4 * index) with
      | none => exact .inr ⟨unread, rfl⟩
      | some entry =>
          have whole : Buffer.Holds (fun index => some (sectorImage image start.part sector 0 index)) 0 blksz
              (sectorImage image start.part sector 0) := fun index _ => by rw [Nat.zero_add]
          rw [Option.some.inj ((within.le32? known).symm.trans (whole.le32? bound))]
          exact .inl rfl

theorem indirEntry_blank {index : Nat}
    (at' : AtSlot start slot (fun cache => cache.block = some .blank) others fs) :
    (indirEntry slot index fs).value? = none := by
  unfold indirEntry
  rw [Prog.view_bind, at'.own]
  by_cases bound : 4 * index + 4 ≤ (slot.get fs).size
  · rw [Prog.demand_pos bound]
    rfl
  · rw [Prog.demand_neg bound]
    rfl

end Lookup

end IQuik.Ext2
