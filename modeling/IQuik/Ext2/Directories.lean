import Mathlib.Data.List.GetD
import Mathlib.Tactic.MkIffOfInductiveProp
import IQuik.Ext2.Scans
import IQuik.Program.Exits

namespace IQuik.Ext2

open IQuik.Data IQuik.Program IQuik.Storage

/-! # Lookups in directories

The contents of a directory are entries, one behind the other. Entries with the
inode number 0 are unused, with an old name perhaps.
-/

structure Entry where
  inode : Nat
  direntlen : Nat
  filetype : UInt8
  filename : Str

/-- An entry as it stands in a directory. -/
@[mk_iff] structure EntryAt (content : Image) (fpos : Nat) (entry : Entry) : Prop where
  inode : content.le32 fpos = entry.inode
  direntlen : content.le16 (fpos + 4) = entry.direntlen
  namelen : (content (fpos + 6)).toNat = entry.filename.length
  filetype : content (fpos + 7) = entry.filetype
  filename : content.list (fpos + 8) entry.filename.length = entry.filename
  room : 8 + entry.filename.length ≤ entry.direntlen
  plain : 0 ∉ entry.filename

/-- The entries fill a directory of `size` bytes from `fpos` on. -/
def Tiles (content : Image) (size : Nat) : (fpos : Nat) → List Entry → Prop
  | fpos, [] => fpos = size
  | fpos, entry :: rest => EntryAt content fpos entry ∧ Tiles content size (fpos + entry.direntlen) rest

/-- Where entries are that stand one behind the other from `fpos` on. -/
def placed : (fpos : Nat) → List Entry → List (Nat × Entry)
  | _, [] => []
  | fpos, entry :: rest => (fpos, entry) :: placed (fpos + entry.direntlen) rest

instance (content : Image) (fpos : Nat) (entry : Entry) : Decidable (EntryAt content fpos entry) :=
  decidable_of_iff _ (entryAt_iff content fpos entry).symm

instance Tiles.decidable (content : Image) (size : Nat) :
    (fpos : Nat) → (entries : List Entry) → Decidable (Tiles content size fpos entries)
  | fpos, [] => inferInstanceAs (Decidable (fpos = size))
  | fpos, entry :: rest =>
      have := Tiles.decidable content size (fpos + entry.direntlen) rest
      inferInstanceAs (Decidable (EntryAt content fpos entry ∧ Tiles content size (fpos + entry.direntlen) rest))

theorem Tiles.le {content : Image} {size fpos : Nat} {entries : List Entry}
    (tiles : Tiles content size fpos entries) : fpos ≤ size := by
  induction entries generalizing fpos with
  | nil => exact Nat.le_of_eq tiles
  | cons entry rest ih => exact (Nat.le_add_right _ _).trans (ih tiles.2)

section Names

theorem Image.list_getD (image : Image) (offset : Nat) {count index : Nat} (inside : index < count) :
    (image.list offset count).getD index 0 = image (offset + index) := by
  induction count generalizing offset index with
  | zero => cases inside
  | succ count ih =>
      cases index with
      | zero => rfl
      | succ index =>
          have rest := ih (offset + 1) (Nat.lt_of_succ_lt_succ inside)
          rw [Nat.add_assoc, Nat.add_comm 1] at rest
          exact rest

/-- `strcmp` finds equal strings equal. -/
theorem nameMatches_eq {buffer : Buffer} {index : Nat} {filename name : Str} (plain : 0 ∉ filename)
    (bytes : ∀ k, k < filename.length → buffer (index + k) = some (filename.getD k 0)) :
    nameMatches buffer index filename.length name = some (decide (filename = name)) := by
  induction filename generalizing index name with
  | nil => cases name <;> rfl
  | cons byte rest ih =>
      obtain ⟨nonzero, plain⟩ := not_or.mp (fun found => plain (List.mem_cons.mpr found))
      have first : buffer index = some byte := bytes 0 (Nat.zero_lt_succ _)
      have next : ∀ other, nameMatches buffer (index + 1) rest.length other = some (decide (rest = other)) := by
        intro other
        refine ih plain fun k below => ?_
        rw [Nat.add_assoc, Nat.add_comm 1, bytes (k + 1) (Nat.succ_lt_succ below)]
        rfl
      rw [List.length_cons]
      unfold nameMatches
      cases name with
      | nil =>
          rw [first]
          simp [Ne.symm nonzero]
      | cons other name =>
          rw [first]
          by_cases same : byte = other
          · simp [same, next]
          · simp [same]

end Names

variable {machine : Machine} {image : Nat → Image} {start fs : Fs} {dir : Node}

/-- The type of an entry: the one that it states, or else the one in its inode. -/
def EntryType (machine : Machine) (data : Ext2Data) (start : Fs) (entry : Entry) (type : FileType) : Prop :=
  if entry.filetype ≠ 0 then type = .ofDirent entry.filetype
  else ∃ inode after, ext2fsReadInode machine data entry.inode start = .ok inode after ∧ type = .ofMode inode.mode

/-- The bytes of a directory. -/
abbrev dirImage (image : Nat → Image) (part : Part) (dir : Node) : Image := fileByte image part dir

section Errors

/-- A program that does not fail as if a name was missing. -/
abbrev NeverMissing {σ α : Type} (program : Prog QuikErr σ α) : Prop :=
  Prog.Exits True (fun _ => True) program (fun _ _ => True) fun code _ => code ≠ .fsNotFound

variable {σ α β : Type}

theorem NeverMissing.bind {first : Prog QuikErr σ α} {next : α → Prog QuikErr σ β}
    (begins : NeverMissing first) (goes : ∀ value, NeverMissing (next value)) : NeverMissing (first >>= next) :=
  Prog.Exits.bind begins goes

theorem NeverMissing.pure (value : α) : NeverMissing (pure value : Prog QuikErr σ α) :=
  Prog.Exits.pure fun _ _ => trivial

theorem NeverMissing.arith (condition : Prop) [Decidable condition] :
    NeverMissing (Prog.arith condition : Prog QuikErr σ Unit) :=
  Prog.Exits.arith (.inl trivial) fun _ _ _ => trivial

theorem NeverMissing.update (store : σ → σ) : NeverMissing (Prog.update store : Prog QuikErr σ Unit) :=
  Prog.Exits.update fun _ _ => trivial

theorem ext2BlockSize_found (data : Ext2Data) : NeverMissing (ext2BlockSize data : Prog QuikErr σ Nat) := by
  unfold ext2BlockSize shiftOne
  exact .bind (.arith _) fun _ => NeverMissing.pure _

theorem shl32_found (value count : Nat) : NeverMissing (shl32 value count : Prog QuikErr σ Nat) := by
  unfold shl32
  exact .bind (.arith _) fun _ => NeverMissing.pure _

variable (machine)

theorem partRead_found (sector byteOffset byteLen place : Nat) :
    NeverMissing (partRead machine sector byteOffset byteLen place) := by
  unfold partRead
  refine .bind (Prog.Exits.view fun _ _ => trivial) fun part => ?_
  refine .ite (fun _ => .fail fun _ _ => QuikErr.noConfusion) fun _ => ?_
  have reads : NeverMissing (Prog.onFirst (τ := Buffer) (diskRead machine part.dev byteLen
      (sector * 512 + part.start + byteOffset))) := by
    refine .onFirst fun _ fs _ => ?_
    unfold diskRead
    split <;> trivial
  refine .bind reads fun answer => ?_
  refine NeverMissing.bind (NeverMissing.update _) fun _ => ?_
  exact .ite (fun _ => NeverMissing.pure _) fun _ => .fail fun _ _ => QuikErr.noConfusion

theorem readStruct_found (sector byteOffset width : Nat) :
    NeverMissing (readStruct machine sector byteOffset width) := by
  have reads : NeverMissing (Prog.scratch Buffer.blank (partRead machine sector byteOffset width 0)) :=
    .scratch ((partRead_found machine sector byteOffset width 0).conseq (fun _ _ => trivial)
      (fun _ _ _ => trivial) fun _ _ => id)
  exact .bind reads fun _ => NeverMissing.pure _

/-- An inode that cannot be read is not one that is missing. -/
theorem readInode_found (data : Ext2Data) (ino : Nat) : NeverMissing (ext2fsReadInode machine data ino) := by
  have group : ∀ group, NeverMissing (ext2fsBlockgroup machine data group) := by
    intro group
    refine .bind (ext2BlockSize_found _) fun _ => .bind (.arith _) fun _ => ?_
    exact .bind (shl32_found _ _) fun _ => readStruct_found machine _ _ _
  refine .bind (.arith _) fun _ => .bind (group _) fun _ => .bind (ext2BlockSize_found _) fun _ => ?_
  refine .bind (Prog.Exits.view fun _ _ => trivial) fun _ => .bind (.arith _) fun _ => .bind (.arith _) fun _ => ?_
  exact .bind (shl32_found _ _) fun _ => .bind (readStruct_found machine _ _ _) fun _ => NeverMissing.pure _

end Errors

section Holes

variable {part : Part} {room pos len fpos : Nat}

/-- A hole is stored up to its end: either the last of the `len` bytes from `pos` on does
not lie in one, or the hole ends within `room` bytes. -/
def FitsLocal (image : Nat → Image) (part : Part) (dir : Node) (room pos len : Nat) : Prop :=
  treeBlock image part dir ((pos + len - 1) / dir.data.blockBytes) = 0 →
    ((pos + len - 1) / dir.data.blockBytes + 1) * dir.data.blockBytes ≤ pos + room

instance (image : Nat → Image) (part : Part) (dir : Node) (room pos len : Nat) :
    Decidable (FitsLocal image part dir room pos len) := inferInstanceAs (Decidable (_ → _))

/-- The header of the entry at `fpos` is read into its 8 bytes. -/
abbrev HeaderFits (image : Nat → Image) (part : Part) (dir : Node) (fpos : Nat) : Prop :=
  FitsLocal image part dir 8 fpos 8

theorem block_of_byte (known : dirImage image part dir pos ≠ 0) :
    treeBlock image part dir (pos / dir.data.blockBytes) ≠ 0 :=
  fun hole => known (if_pos hole)

/-- A read into a local variable that is large enough stores behind it for a hole only. -/
theorem walkFile_fits (readable : Readable image part dir) (inside : pos + len ≤ dir.inode.size) (some' : 0 < len)
    (enough : len ≤ room) {buffer : Buffer}
    (walk : walkFile image part dir pos len ((), .blank) = .ok () ((), buffer)) :
    buffer room = none ↔ FitsLocal image part dir room pos len := by
  have sized : dir.data.log2BlockSize ≤ 6 := readable.sized
  have bytes := readable.sized.bytes
  have cut : min len dir.inode.size = len := by omega
  have bound := readable.bound
  have exact' : (fileRange dir pos len dir.data.blockBytes).Exact := fileRange_exact (by omega)
  have starts : pos / dir.data.blockBytes < (fileRange dir pos len dir.data.blockBytes).blockcnt := by
    have floor := Nat.div_mul_le_self pos dir.data.blockBytes
    apply exact'.lt_blockcnt.mpr
    simp only [fileRange, cut]
    omega
  obtain ⟨count, written, ⟨outside, -⟩ | ⟨last, sector, blocks, -, found, ends⟩⟩ := walkFile_transfers (by omega) walk
  · omega
  obtain ⟨lower, upper, reaches⟩ := fileRange_last exact' blocks sector
  rw [cut] at lower upper reaches
  have here : (pos + len - 1) / dir.data.blockBytes = last := Nat.div_eq_of_lt_le (by omega) (by omega)
  have block := readable.blocks last (by omega)
  have small : last < 2 ^ 31 := by
    have least := readable.sized.blockBytes.1
    have le : last * 1024 ≤ last * dir.data.blockBytes := Nat.mul_le_mul_left last least
    omega
  have hole : sector = 0 ↔ treeBlock image part dir last = 0 := by
    have shift : dir.data.log2Ext2BlockSize < 32 := by
      rw [readable.sized.shift]
      omega
    unfold walkSector at found
    rw [Prog.bind_run_ok (walkBlock_run readable.sized small block), shl32_run shift] at found
    exact sector_zero block.plain.block (Outcome.ok.inj found).1.symm
  have behind : buffer room = none ↔ count ≤ room := by
    rw [← Nat.not_lt, ← written room, Option.not_isSome_iff_eq_none]
  rw [behind, FitsLocal, here, ← hole]
  rw [reaches] at ends
  split at ends
  · rename_i zero
    rw [imp_iff_right zero]
    omega
  · rename_i other
    exact iff_of_true (by omega) fun zero => absurd zero other

/-- Neither the header nor the name of an entry that has one ends in a hole. -/
theorem EntryAt.fits {entry : Entry}
    (found : EntryAt (dirImage image part dir) fpos entry) (named : entry.filename ≠ []) :
    HeaderFits image part dir fpos ∧
      FitsLocal image part dir (entry.filename.length + 1) (fpos + 8) entry.filename.length := by
  have some' : 0 < entry.filename.length := List.length_pos_iff.mpr named
  have byte (k : Nat) (below : k < entry.filename.length) : dirImage image part dir (fpos + 8 + k) ≠ 0 := by
    have stated := Image.list_getD (dirImage image part dir) (fpos + 8) below
    rw [found.filename, List.getD_eq_getElem _ _ below] at stated
    rw [← stated]
    exact fun zero => found.plain (zero ▸ List.getElem_mem below)
  constructor
  · intro hole
    by_contra reaches
    have inside := Nat.div_mul_le_self (fpos + 8 - 1) dir.data.blockBytes
    have same : (fpos + 8 + 0) / dir.data.blockBytes = (fpos + 8 - 1) / dir.data.blockBytes :=
      Nat.div_eq_of_lt_le (by omega) (by omega)
    exact block_of_byte (byte 0 some') (same ▸ hole)
  · intro hole
    have last := byte (entry.filename.length - 1) (by omega)
    rw [show fpos + 8 + (entry.filename.length - 1) = fpos + 8 + entry.filename.length - 1 by omega] at last
    exact absurd hole (block_of_byte last)

/-- Nor does the header of an entry at a multiple of 4: its length is not 0. -/
theorem EntryAt.header_fits {entry : Entry} (found : EntryAt (dirImage image part dir) fpos entry)
    (sized : BlockSized dir.data) (aligned : 4 ∣ fpos) : HeaderFits image part dir fpos := by
  obtain ⟨words, rfl⟩ := aligned
  have room := found.room
  have large : dir.data.blockBytes = 4 * (2 ^ (dir.data.log2BlockSize + 8)) := by
    rw [Ext2Data.blockBytes, sized.bytes, Nat.pow_add, Nat.pow_add]
    omega
  have block (k : Nat) (lower : 4 ≤ k) (upper : k < 8) :
      (4 * words + k) / dir.data.blockBytes = (words + 1) / 2 ^ (dir.data.log2BlockSize + 8) := by
    rw [large, ← Nat.div_div_eq_div_mul]
    congr 1
    omega
  have same (k : Nat) (lower : 4 ≤ k) (upper : k < 8) (hole : treeBlock image part dir
      ((4 * words + 8 - 1) / dir.data.blockBytes) = 0) : dirImage image part dir (4 * words + k) = 0 := by
    rw [show 4 * words + 8 - 1 = 4 * words + 7 by omega, block 7 (by decide) (by decide), ← block k lower upper] at hole
    exact if_pos hole
  intro hole
  have low := same 4 (by decide) (by decide) hole
  have high := same 5 (by decide) (by decide) hole
  have length : (dirImage image part dir).le16 (4 * words + 4) = entry.direntlen := found.direntlen
  rw [Image.le16, low, show dirImage image part dir (4 * words + 4 + 1) = 0 from high] at length
  have none : (0 : Nat) = entry.direntlen := length
  omega

section Reads

variable (readable : Readable image part dir) (inside : pos + len ≤ dir.inode.size) (some' : 0 < len)
  (enough : len ≤ room)
include readable inside some' enough

/-- A read into a local variable succeeds if it fits. -/
theorem Readable.stored (fits : FitsLocal image part dir room pos len) :
    ∃ buffer, Stored image part room dir pos len buffer ∧ HoldsFile image part dir pos len buffer := by
  obtain ⟨⟨_, buffer⟩, walk, holds⟩ := walkFile_run .blank readable inside
  have behind := (walkFile_fits readable inside some' enough walk).mpr fits
  exact ⟨buffer, Prog.scratch_eq_ok.mpr (Prog.confine_eq_ok.mpr ⟨walk, behind⟩), holds⟩

theorem Readable.overruns (overruns : ¬FitsLocal image part dir room pos len) :
    (walkLocal image part room dir pos len ()).state? = none := by
  obtain ⟨⟨_, buffer⟩, walk, -⟩ := walkFile_run .blank readable inside
  have behind := mt (walkFile_fits readable inside some' enough walk).mp overruns
  unfold walkLocal Prog.scratch Prog.confine
  rw [walk]
  dsimp only
  rw [if_neg behind]
  rfl

end Reads

/-- The record of an entry inside a directory that can be read. -/
theorem EntryAt.record {entry : Entry} (found : EntryAt (dirImage image part dir) fpos entry)
    (readable : Readable image part dir) (inside : fpos + entry.direntlen ≤ dir.inode.size)
    (fits : entry.filename = [] → HeaderFits image part dir fpos) :
    ∃ filename, (∀ k, k < entry.filename.length → filename (0 + k) = some (entry.filename.getD k 0)) ∧
      RecordAt image part dir fpos entry.direntlen (if entry.filename = [] then none else some
        { inode := entry.inode, filetype := entry.filetype, namelen := dirImage image part dir (fpos + 6), filename }) := by
  have room := found.room
  have header : HeaderFits image part dir fpos := by
    by_cases unnamed : entry.filename = []
    · exact fits unnamed
    · exact (found.fits unnamed).1
  obtain ⟨dirent, stored, holds⟩ := readable.stored (show fpos + 8 ≤ dir.inode.size by omega) (by decide)
    (Nat.le_refl 8) header
  have namelen : dirent 6 = some (dirImage image part dir (fpos + 6)) := holds 6 (by decide)
  have filetype : dirent 7 = some entry.filetype := by
    rw [← found.filetype]
    exact holds 7 (by decide)
  have inode : dirent.le32? 0 = some entry.inode := by
    rw [holds.le32? (by decide), ← found.inode]
    exact congrArg some (by unfold Image.le32 Image.le16; rfl)
  have direntlen : dirent.le16? 4 = some entry.direntlen := by
    rw [holds.le16? (by decide), ← found.direntlen]
    exact congrArg some (by unfold Image.le16; rfl)
  have length := found.namelen
  by_cases unnamed : entry.filename = []
  · have zero : dirImage image part dir (fpos + 6) = 0 := by
      rw [unnamed] at length
      exact UInt8.toNat_inj.mp length
    refine ⟨.blank, fun k below => ?_, ?_⟩
    · rw [unnamed] at below
      exact absurd below (Nat.not_lt_zero k)
    · rw [if_pos unnamed]
      exact .unnamed stored (zero ▸ namelen) direntlen
  · have some' : dirImage image part dir (fpos + 6) ≠ 0 := by
      intro zero
      rw [zero] at length
      exact unnamed (List.length_eq_zero_iff.mp length.symm)
    have word : dir.inode.size < 2 ^ 32 := Image.le32_lt _ _
    have position : (fpos + 8) % 2 ^ 32 = fpos + 8 := Nat.mod_eq_of_lt (by omega)
    obtain ⟨filename, second, bytes⟩ := readable.stored
      (show fpos + 8 + entry.filename.length ≤ dir.inode.size by omega) (List.length_pos_iff.mpr unnamed)
      (Nat.le_succ _) (found.fits unnamed).2
    refine ⟨filename, fun k below => ?_, ?_⟩
    · have stated := Image.list_getD (dirImage image part dir) (fpos + 8) below
      rw [found.filename] at stated
      rw [stated]
      exact bytes k below
    · rw [if_neg unnamed]
      refine .named stored namelen some' direntlen inode filetype ?_
      rw [position, length]
      exact second

end Holes

section Reads

variable (fixed : machine.Fixed image) (reliable : machine.Reliable)
include fixed reliable

/-- Reading an entry inside the directory, with its name. -/
theorem direntAt_bytes (later : Later image start fs) (readable : Readable image start.part dir)
    {fpos : Nat} {entry : Entry} (found : EntryAt (dirImage image start.part dir) fpos entry)
    (inside : fpos + entry.direntlen ≤ dir.inode.size)
    (fits : entry.filename = [] → HeaderFits image start.part dir fpos) :
    ∃ after filename, Later image start after ∧
      (∀ k, k < entry.filename.length → filename (0 + k) = some (entry.filename.getD k 0)) ∧
      direntAt machine dir fpos fs =
        if entry.filename = [] then .ok (entry.direntlen, none) after
        else (direntNode machine dir.data entry.inode entry.filetype >>= fun node =>
          pure (entry.direntlen, some
            { namelen := entry.filename.length, filename, node := node.1, type := node.2 })) after := by
  have usable := readable.sized.unmarked
  obtain ⟨filename, bytes, record⟩ := found.record readable inside fits
  by_cases unnamed : entry.filename = []
  · rw [if_pos unnamed] at record
    obtain ⟨after, later', run⟩ := direntAt_unnamed fixed reliable usable record later
    exact ⟨after, filename, later', bytes, by rw [if_pos unnamed, run]⟩
  · rw [if_neg unnamed] at record
    obtain ⟨after, later', run⟩ := direntAt_named fixed reliable usable record later
    rw [found.namelen] at run
    exact ⟨after, filename, later', bytes, by rw [if_neg unnamed, run]⟩

/-- A header that does not fit is stored over what lies behind it. -/
theorem direntAt_overruns (later : Later image start fs) (readable : Readable image start.part dir) {fpos : Nat}
    (inside : fpos + 8 ≤ dir.inode.size) (overruns : ¬HeaderFits image start.part dir fpos) :
    (direntAt machine dir fpos fs).state? = none :=
  Prog.bind_state?_none ((readLocal_agree fixed reliable readable.sized.unmarked later 8 fpos 8).of_stopped_right
    (readable.overruns inside (by decide) (Nat.le_refl 8) overruns))

/-- Reading an entry inside the directory, and comparing its name. -/
theorem direntAt_run (later : Later image start fs) (readable : Readable image start.part dir)
    {fpos : Nat} {entry : Entry} (found : EntryAt (dirImage image start.part dir) fpos entry)
    (inside : fpos + entry.direntlen ≤ dir.inode.size)
    (fits : entry.filename = [] → HeaderFits image start.part dir fpos) :
    ∃ after filename, Later image start after ∧
      (∀ name, nameMatches filename 0 entry.filename.length name = some (decide (entry.filename = name))) ∧
      direntAt machine dir fpos fs =
        if entry.filename = [] then .ok (entry.direntlen, none) after
        else (direntNode machine dir.data entry.inode entry.filetype >>= fun node =>
          pure (entry.direntlen, some
            { namelen := entry.filename.length, filename, node := node.1, type := node.2 })) after := by
  obtain ⟨after, filename, later', bytes, run⟩ := direntAt_bytes fixed reliable later readable found inside fits
  exact ⟨after, filename, later', fun name => nameMatches_eq found.plain bytes, run⟩

/-- The node of an entry that has a type. -/
theorem direntNode_typed (later : Later image start fs) {entry : Entry} {type : FileType}
    (typed : EntryType machine dir.data start entry type) :
    ∃ node after, direntNode machine dir.data entry.inode entry.filetype fs = .ok (node, type) after ∧
      node.ino = entry.inode ∧ Later image start after := by
  unfold EntryType at typed
  by_cases states : entry.filetype ≠ 0
  · rw [if_pos states] at typed
    subst typed
    obtain ⟨after, run, later'⟩ := direntNode_stated reliable later states
    exact ⟨_, after, run, rfl, later'⟩
  · rw [if_neg states] at typed
    obtain ⟨inode, first, read, rfl⟩ := typed
    obtain ⟨ready, later', run⟩ := direntNode_reads reliable later
    have repeats : Repeats image start.part EqualSizes False (fun _ => True)
        (ext2fsReadInode machine dir.data entry.inode) := readInode_later fixed reliable _ _
    obtain ⟨after, read, later', -⟩ := repeats.later_ok (readInode_near _ _) later' read
    rw [not_not.mp states, run, Prog.bind_run_ok read]
    exact ⟨_, after, rfl, rfl, later'⟩

/-- No other entry has a node, and its failure is not that of a name that is
missing. -/
theorem direntNode_untyped (later : Later image start fs) {entry : Entry}
    (untyped : ∀ type, ¬EntryType machine dir.data start entry type) :
    (∃ code after, code ≠ .fsNotFound ∧
      direntNode machine dir.data entry.inode entry.filetype fs = .error code after) ∨
    (direntNode machine dir.data entry.inode entry.filetype fs).state? = none := by
  unfold EntryType at untyped
  by_cases states : entry.filetype ≠ 0
  · simp only [if_pos states] at untyped
    exact absurd rfl (untyped _)
  · simp only [if_neg states] at untyped
    obtain ⟨ready, later', run⟩ := direntNode_reads reliable later
    have repeats : Repeats image start.part EqualSizes False (fun _ => True)
        (ext2fsReadInode machine dir.data entry.inode) := readInode_later fixed reliable _ _
    rw [not_not.mp states, run]
    cases read : ext2fsReadInode machine dir.data entry.inode start with
    | ok inode first => exact absurd ⟨inode, first, read, rfl⟩ (untyped _)
    | error code first =>
        obtain ⟨after, failed⟩ := repeats.later_error later' read
        rw [Prog.bind_run_error failed]
        exact .inl ⟨code, after, (readInode_found machine _ _).of_error trivial read, rfl⟩
    | fault | undefined | unfinished =>
        exact .inr (Prog.bind_state?_none (repeats.later_stopped later' (by rw [read]; rfl)))

end Reads

section Lookups

variable {name : Str} {fpos : Nat} {entry : Entry}

/-- What the lookup of a name does at an entry. -/
structure Step (machine : Machine) (image : Nat → Image) (start : Fs) (dir : Node) (name : Str) (fpos : Nat)
    (entry : Entry) (outcome : Outcome QuikErr Fs Scan) : Prop where
  passes : entry.filename = [] ∧ HeaderFits image start.part dir fpos ∨
      (entry.filename ≠ [] ∧ entry.filename ≠ name) ∧ (∃ type, EntryType machine dir.data start entry type) →
    ∃ after, Later image start after ∧ outcome = .ok (.goOn (fpos + entry.direntlen)) after
  overruns : entry.filename = [] → ¬HeaderFits image start.part dir fpos → outcome.state? = none
  found : ∀ type, entry.filename ≠ [] → entry.filename = name → EntryType machine dir.data start entry type →
    ∃ node after, outcome = .ok (.found node type) after ∧ node.ino = entry.inode
  stuck : entry.filename ≠ [] → (∀ type, ¬EntryType machine dir.data start entry type) →
    (∃ code after, code ≠ .fsNotFound ∧ outcome = .error code after) ∨ outcome.state? = none

variable (fixed : machine.Fixed image) (reliable : machine.Reliable)
include fixed reliable

theorem scanEntry_step (name : Str) (later : Later image start fs) (readable : Readable image start.part dir)
    (found : EntryAt (dirImage image start.part dir) fpos entry) (inside : fpos + entry.direntlen ≤ dir.inode.size) :
    Step machine image start dir name fpos entry (scanEntry machine dir (some name) fpos fs) := by
  have word : dir.inode.size < 2 ^ 32 := Image.le32_lt _ _
  have room := found.room
  have position : (fpos + entry.direntlen) % 2 ^ 32 = fpos + entry.direntlen := Nat.mod_eq_of_lt (by omega)
  unfold scanEntry
  by_cases unnamed : entry.filename = []
  · by_cases fits : HeaderFits image start.part dir fpos
    · obtain ⟨middle, filename, later', matching, run⟩ :=
        direntAt_run fixed reliable later readable found inside fun _ => fits
      rw [if_pos unnamed] at run
      rw [Prog.bind_run_ok run]
      refine ⟨fun _ => ⟨middle, later', ?_⟩, fun _ other => absurd fits other, fun _ some => absurd unnamed some,
        fun some => absurd unnamed some⟩
      exact congrArg (fun next => Outcome.ok (Scan.goOn next) middle) position
    · refine ⟨?_, fun _ _ => Prog.bind_state?_none (direntAt_overruns fixed reliable later readable (by omega) fits),
        fun _ some => absurd unnamed some, fun some => absurd unnamed some⟩
      rintro (⟨-, header⟩ | ⟨⟨some, -⟩, -⟩)
      · exact absurd header fits
      · exact absurd unnamed some
  obtain ⟨middle, filename, later', matching, run⟩ :=
    direntAt_run fixed reliable later readable found inside fun empty => absurd empty unnamed
  rw [if_neg unnamed] at run
  have compare : ∀ {node type after}, direntNode machine dir.data entry.inode entry.filetype middle =
      .ok (node, type) after → scanEntry machine dir (some name) fpos fs =
        if entry.filename = name then .ok (.found node type) after
        else .ok (.goOn (fpos + entry.direntlen)) after := by
    intro node type after read
    rw [Prog.bind_run_ok read] at run
    unfold scanEntry
    rw [Prog.bind_run_ok run]
    change (Prog.defined (nameMatches filename 0 entry.filename.length name) >>= fun matching =>
      if matching then pure (Scan.found node type)
        else pure (Scan.goOn ((fpos + entry.direntlen) % 2 ^ 32))) after = _
    rw [matching, Prog.defined_some, Prog.pure_bind, position]
    by_cases same : entry.filename = name
    · rw [if_pos same, if_pos (decide_eq_true same)]
      rfl
    · rw [if_neg same, if_neg (by rwa [decide_eq_true_iff])]
      rfl
  refine ⟨?_, fun empty => absurd empty unnamed, ?_, ?_⟩
  · rintro (⟨none, -⟩ | ⟨⟨-, other⟩, type, typed⟩)
    · exact absurd none unnamed
    obtain ⟨node, after, read, -, later''⟩ := direntNode_typed fixed reliable later' typed
    exact ⟨after, later'', (compare read).trans (if_neg other)⟩
  · intro type _ same typed
    obtain ⟨node, after, read, number, -⟩ := direntNode_typed fixed reliable later' typed
    exact ⟨node, after, (compare read).trans (if_pos same), number⟩
  · intro _ untyped
    rcases direntNode_untyped fixed reliable later' untyped with ⟨code, after, other, failed⟩ | stopped
    · rw [Prog.bind_run_error failed] at run
      exact .inl ⟨code, after, other, Prog.bind_run_error run⟩
    · refine .inr (Prog.bind_state?_none ?_)
      rw [run]
      exact Prog.bind_state?_none stopped

end Lookups

section Live

variable {name : Str} {entry : Entry} {rest entries : List Entry}

def isLive (name : Str) (entry : Entry) : Bool := decide (entry.inode ≠ 0 ∧ entry.filename = name)

/-- The entry that is in use under a name. -/
def liveEntry (name : Str) (entries : List Entry) : Option Entry := entries.find? (isLive name)

/-- The entries in front of it. -/
def passed (name : Str) (entries : List Entry) : List Entry := entries.takeWhile fun entry => !isLive name entry

/-- A lookup has the inode and the type of the live entry, or fails for want of
one. -/
structure Right (machine : Machine) (data : Ext2Data) (start : Fs) (name : Str) (entries : List Entry)
    (outcome : Outcome QuikErr Fs (Node × FileType)) : Prop where
  found : ∀ entry, liveEntry name entries = some entry → ∃ node type after, outcome = .ok (node, type) after ∧
    node.ino = entry.inode ∧ EntryType machine data start entry type
  missing : liveEntry name entries = none → ∃ after, outcome = .error .fsNotFound after

/-- Nothing in front of the live entry ends the lookup: no unused entry has the
name, all that have one have a type, and the header of each that has none is read into
its local variable. -/
structure Undisturbed (machine : Machine) (image : Nat → Image) (start : Fs) (dir : Node) (name : Str) (fpos : Nat)
    (entries : List Entry) : Prop where
  unused : ∀ entry ∈ passed name entries, entry.inode = 0 → entry.filename = name → name = []
  typed : ∀ entry ∈ passed name entries, entry.filename ≠ [] → ∃ type, EntryType machine dir.data start entry type
  headers : ∀ place ∈ placed fpos (passed name entries), place.2.filename = [] →
    HeaderFits image start.part dir place.1
  live : ∀ entry, liveEntry name entries = some entry →
    name ≠ [] ∧ ∃ type, EntryType machine dir.data start entry type

variable {data : Ext2Data} {outcome : Outcome QuikErr Fs (Node × FileType)}

theorem Right.cons (other : isLive name entry = false) :
    Right machine data start name (entry :: rest) outcome ↔ Right machine data start name rest outcome := by
  have same : liveEntry name (entry :: rest) = liveEntry name rest :=
    List.find?_cons_of_neg (by simp [other])
  exact ⟨fun right => ⟨same ▸ right.found, same ▸ right.missing⟩,
    fun right => ⟨same ▸ right.found, same ▸ right.missing⟩⟩

theorem Undisturbed.cons {fpos : Nat} (other : isLive name entry = false) :
    Undisturbed machine image start dir name fpos (entry :: rest) ↔
      (entry.inode = 0 → entry.filename = name → name = []) ∧
      (entry.filename ≠ [] → ∃ type, EntryType machine dir.data start entry type) ∧
      (entry.filename = [] → HeaderFits image start.part dir fpos) ∧
      Undisturbed machine image start dir name (fpos + entry.direntlen) rest := by
  have live : liveEntry name (entry :: rest) = liveEntry name rest :=
    List.find?_cons_of_neg (by simp [other])
  have front : passed name (entry :: rest) = entry :: passed name rest :=
    List.takeWhile_cons_of_pos (by simp [other])
  constructor
  · rintro ⟨unused, typed, headers, found⟩
    rw [front] at unused typed headers
    rw [live] at found
    obtain ⟨header, headers⟩ := List.forall_mem_cons.mp headers
    exact ⟨unused entry (by simp), typed entry (by simp), header, fun e inside => unused e (by simp [inside]),
      fun e inside => typed e (by simp [inside]), headers, found⟩
  · rintro ⟨unused, typed, header, others⟩
    refine ⟨?_, ?_, ?_, live ▸ others.live⟩
    · rw [front]
      exact List.forall_mem_cons.mpr ⟨unused, others.unused⟩
    · rw [front]
      exact List.forall_mem_cons.mpr ⟨typed, others.typed⟩
    · rw [front]
      exact List.forall_mem_cons.mpr ⟨header, others.headers⟩

/-- An outcome that is neither a node nor a missing name is not right. -/
theorem Right.not_stuck
    (stuck : (∃ code after, code ≠ .fsNotFound ∧ outcome = .error code after) ∨ outcome.state? = none) :
    ¬Right machine data start name entries outcome := by
  intro right
  cases live : liveEntry name entries with
  | none =>
      obtain ⟨after, run⟩ := right.missing live
      rw [run] at stuck
      obtain ⟨code, _, other, same⟩ | stopped := stuck
      · cases same
        exact other rfl
      · cases stopped
  | some entry =>
      obtain ⟨node, type, after, run, -⟩ := right.found entry live
      rw [run] at stuck
      obtain ⟨code, _, -, same⟩ | stopped := stuck
      · cases same
      · cases stopped

variable (fixed : machine.Fixed image) (reliable : machine.Reliable)
  (readable : Readable image start.part dir)
include fixed reliable readable

/-- The four things that a lookup does at an entry. -/
theorem iterateDirFrom_cases (name : Str) (fuel : Nat) {fpos : Nat} (later : Later image start fs)
    (tiles : Tiles (dirImage image start.part dir) dir.inode.size fpos (entry :: rest)) :
    ((entry.filename = [] ∧ HeaderFits image start.part dir fpos ∨
        (entry.filename ≠ [] ∧ entry.filename ≠ name) ∧ ∃ type, EntryType machine dir.data start entry type) ∧
      ∃ after, Later image start after ∧ iterateDirFrom machine dir (some name) (fuel + 1) fpos fs =
        iterateDirFrom machine dir (some name) fuel (fpos + entry.direntlen) after) ∨
    ((entry.filename ≠ [] ∧ entry.filename = name) ∧ ∃ type node after,
      iterateDirFrom machine dir (some name) (fuel + 1) fpos fs = .ok (node, type) after ∧
        node.ino = entry.inode ∧ EntryType machine dir.data start entry type) ∨
    (entry.filename = [] ∧ ¬HeaderFits image start.part dir fpos ∧
      (iterateDirFrom machine dir (some name) (fuel + 1) fpos fs).state? = none) ∨
    (entry.filename ≠ [] ∧ (∀ type, ¬EntryType machine dir.data start entry type) ∧
      ((∃ code after, code ≠ .fsNotFound ∧
        iterateDirFrom machine dir (some name) (fuel + 1) fpos fs = .error code after) ∨
        (iterateDirFrom machine dir (some name) (fuel + 1) fpos fs).state? = none)) := by
  obtain ⟨here, tiles⟩ := tiles
  have room := here.room
  have inside := tiles.le
  have step := scanEntry_step fixed reliable name later readable here inside
  rw [iterateDirFrom_inside fuel (by omega)]
  by_cases unnamed : entry.filename = []
  · by_cases fits : HeaderFits image start.part dir fpos
    · obtain ⟨after, later', run⟩ := step.passes (.inl ⟨unnamed, fits⟩)
      exact .inl ⟨.inl ⟨unnamed, fits⟩, after, later', Prog.bind_run_ok run⟩
    · exact .inr (.inr (.inl ⟨unnamed, fits, Prog.bind_state?_none (step.overruns unnamed fits)⟩))
  by_cases typed : ∃ type, EntryType machine dir.data start entry type
  · by_cases same : entry.filename = name
    · obtain ⟨type, typed⟩ := typed
      obtain ⟨node, after, run, number⟩ := step.found type unnamed same typed
      exact .inr (.inl ⟨⟨unnamed, same⟩, type, node, after, Prog.bind_run_ok run, number, typed⟩)
    · obtain ⟨after, later', run⟩ := step.passes (.inr ⟨⟨unnamed, same⟩, typed⟩)
      exact .inl ⟨.inr ⟨⟨unnamed, same⟩, typed⟩, after, later', Prog.bind_run_ok run⟩
  · have untyped := not_exists.mp typed
    refine .inr (.inr (.inr ⟨unnamed, untyped, ?_⟩))
    rcases step.stuck unnamed untyped with ⟨code, after, other, run⟩ | stopped
    · exact .inl ⟨code, after, other, Prog.bind_run_error run⟩
    · exact .inr (Prog.bind_state?_none stopped)

/-- Entries have names, so the empty name is not found. -/
theorem iterateDirFrom_unnamed {fuel fpos : Nat} (later : Later image start fs)
    (tiles : Tiles (dirImage image start.part dir) dir.inode.size fpos entries) {found : Node × FileType}
    {after : Fs} (returned : iterateDirFrom machine dir (some []) fuel fpos fs = .ok found after) : False := by
  induction entries generalizing fuel fpos fs with
  | nil =>
      obtain rfl : fpos = dir.inode.size := tiles
      cases fuel with
      | zero => cases returned
      | succ fuel =>
          rw [iterateDirFrom_outside fuel (Nat.lt_irrefl _)] at returned
          cases returned
  | cons entry rest ih =>
      cases fuel with
      | zero => cases returned
      | succ fuel =>
          rcases iterateDirFrom_cases fixed reliable readable [] fuel later tiles with
            ⟨-, after, later', run⟩ | ⟨⟨named, unnamed⟩, -⟩ | ⟨-, -, stopped⟩ |
            ⟨-, -, ⟨code, after, -, run⟩ | stopped⟩
          · rw [run] at returned
            exact ih later' tiles.2 returned
          · exact named unnamed
          · rw [returned] at stopped
            cases stopped
          · rw [run] at returned
            cases returned
          · rw [returned] at stopped
            cases stopped

/-- At a live entry of the name the lookup is right if the entry is found, with a type. -/
theorem iterateDirFrom_right_live {fuel fpos : Nat} (later : Later image start fs)
    (tiles : Tiles (dirImage image start.part dir) dir.inode.size fpos (entry :: rest))
    (live : isLive name entry = true) :
    Right machine dir.data start name (entry :: rest) (iterateDirFrom machine dir (some name) (fuel + 1) fpos fs) ↔
      Undisturbed machine image start dir name fpos (entry :: rest) := by
  obtain ⟨used, same⟩ := of_decide_eq_true live
  have first : liveEntry name (entry :: rest) = some entry := List.find?_cons_of_pos live
  have front : passed name (entry :: rest) = [] := List.takeWhile_cons_of_neg (by simp [live])
  rcases iterateDirFrom_cases fixed reliable readable name fuel later tiles with
    ⟨⟨unnamed, -⟩ | ⟨⟨-, other⟩, -⟩, after, later', run⟩ |
    ⟨⟨named, -⟩, type, node, after, run, number, typed⟩ | ⟨unnamed, -, stopped⟩ | ⟨-, untyped, stuck⟩
  · obtain rfl : name = [] := same.symm.trans unnamed
    rw [run]
    refine ⟨fun right => ?_, fun fine => absurd rfl (fine.live entry first).1⟩
    obtain ⟨node, type, final, found, -⟩ := right.found entry first
    exact (iterateDirFrom_unnamed fixed reliable readable later' tiles.2 found).elim
  · exact absurd same other
  · refine ⟨fun _ => ⟨by simp [front], by simp [front], by simp [front, placed], fun e found => ?_⟩,
      fun _ => ⟨fun e found => ?_, fun none => ?_⟩⟩
    · rw [first] at found
      cases found
      exact ⟨same ▸ named, type, typed⟩
    · rw [first] at found
      cases found
      exact ⟨node, type, after, run, number, typed⟩
    · rw [first] at none
      cases none
  · refine ⟨fun right => absurd right (Right.not_stuck (.inr stopped)), fun fine => ?_⟩
    exact absurd (same.symm.trans unnamed) (fine.live entry first).1
  · refine ⟨fun right => absurd right (Right.not_stuck stuck), fun fine => ?_⟩
    obtain ⟨-, type, typed⟩ := fine.live entry first
    exact absurd typed (untyped type)

/-- An entry that is not live is passed by, or disturbs the lookup. -/
theorem iterateDirFrom_right_passed {fuel fpos : Nat} (later : Later image start fs)
    (tiles : Tiles (dirImage image start.part dir) dir.inode.size fpos (entry :: rest))
    (live : isLive name entry = false)
    (others : ∀ {after next}, Later image start after →
      Tiles (dirImage image start.part dir) dir.inode.size next rest →
      (Right machine dir.data start name rest (iterateDirFrom machine dir (some name) fuel next after) ↔
        Undisturbed machine image start dir name next rest)) :
    Right machine dir.data start name (entry :: rest) (iterateDirFrom machine dir (some name) (fuel + 1) fpos fs) ↔
      Undisturbed machine image start dir name fpos (entry :: rest) := by
  have unlike : ¬(entry.inode ≠ 0 ∧ entry.filename = name) := of_decide_eq_false live
  rw [Right.cons live, Undisturbed.cons live]
  rcases iterateDirFrom_cases fixed reliable readable name fuel later tiles with
    ⟨harmless, after, later', run⟩ |
    ⟨⟨named, same⟩, type, node, after, run, number, typed⟩ | ⟨unnamed, overruns, stopped⟩ |
    ⟨named, untyped, stuck⟩
  · rw [run, others later' tiles.2]
    refine ⟨fun fine => ⟨fun _ same => ?_, fun named => ?_, fun unnamed => ?_, fine⟩, fun fine => fine.2.2.2⟩
    · obtain ⟨unnamed, -⟩ | ⟨⟨-, other⟩, -⟩ := harmless
      · exact same.symm.trans unnamed
      · exact absurd same other
    · obtain ⟨unnamed, -⟩ | ⟨-, typed⟩ := harmless
      · exact absurd unnamed named
      · exact typed
    · obtain ⟨-, fits⟩ | ⟨⟨named, -⟩, -⟩ := harmless
      · exact fits
      · exact absurd unnamed named
  · have unused : entry.inode = 0 := by
      by_contra used
      exact unlike ⟨used, same⟩
    refine ⟨fun right => ?_, fun fine => absurd (same.trans (fine.1 unused same)) named⟩
    cases found : liveEntry name rest with
    | none =>
        obtain ⟨final, failed⟩ := right.missing found
        rw [run] at failed
        cases failed
    | some other =>
        obtain ⟨node', type', final, returned, number', -⟩ := right.found other found
        rw [run] at returned
        cases returned
        have used : isLive name other = true := List.find?_some found
        have used := (of_decide_eq_true used).1
        exact absurd (number'.symm.trans (number.trans unused)) used
  · exact ⟨fun right => absurd right (Right.not_stuck (.inr stopped)), fun fine => absurd (fine.2.2.1 unnamed) overruns⟩
  · refine ⟨fun right => absurd right (Right.not_stuck stuck), fun fine => ?_⟩
    obtain ⟨type, typed⟩ := fine.2.1 named
    exact absurd typed (untyped type)

/-- A lookup among entries is right if and only if nothing disturbs it. -/
theorem iterateDirFrom_right_iff {fuel fpos : Nat} (later : Later image start fs)
    (tiles : Tiles (dirImage image start.part dir) dir.inode.size fpos entries) (enough : entries.length < fuel) :
    Right machine dir.data start name entries (iterateDirFrom machine dir (some name) fuel fpos fs) ↔
      Undisturbed machine image start dir name fpos entries := by
  induction entries generalizing fuel fpos fs with
  | nil =>
      obtain rfl : fpos = dir.inode.size := tiles
      obtain ⟨fuel, rfl⟩ := Nat.exists_eq_add_of_lt enough
      have run : iterateDirFrom machine dir (some name) (0 + fuel + 1) dir.inode.size = Prog.fail .fsNotFound :=
        iterateDirFrom_outside _ (Nat.lt_irrefl _)
      rw [List.length_nil, run]
      exact ⟨fun _ => ⟨by simp [passed], by simp [passed], by simp [passed, placed], by simp [liveEntry]⟩,
        fun _ => ⟨by simp [liveEntry], fun _ => ⟨fs, rfl⟩⟩⟩
  | cons entry rest ih =>
      obtain ⟨fuel, rfl⟩ : ∃ less, fuel = less + 1 := ⟨fuel - 1, by omega⟩
      cases live : isLive name entry with
      | true => exact iterateDirFrom_right_live fixed reliable readable later tiles live
      | false =>
          exact iterateDirFrom_right_passed fixed reliable readable later tiles live fun later' tiles' =>
            ih later' tiles' (Nat.lt_of_succ_lt_succ enough)

end Live

/-- A lookup in a directory of entries has the live entry of that name, or finds
none, if and only if nothing in front of that entry ends it. -/
theorem iterateDir_live_iff (fixed : machine.Fixed image) (reliable : machine.Reliable) (warm : Warm image fs fs)
    {inode : Inode} {middle : Fs} {name : Str} {entries : List Entry} {fuel : Nat}
    (read : nodeInode machine dir fs = .ok inode middle)
    (readable : Readable image fs.part { dir with inode })
    (tiles : Tiles (dirImage image fs.part { dir with inode }) inode.size 0 entries)
    (enough : entries.length < fuel) :
    Right machine dir.data fs name entries (ext2fsIterateDir machine fuel dir (some name) fs) ↔
      Undisturbed machine image fs { dir with inode } name 0 entries := by
  have repeats : Repeats image fs.part EqualSizes False (fun _ => True) (nodeInode machine dir) :=
    nodeInode_repeats fixed (.inr reliable) EqualSizes.stable EqualSizes.sizes dir
  obtain ⟨after, same, later, -⟩ := repeats.later_ok (nodeInode_near dir) (.refl warm) read
  rw [read] at same
  cases same
  have scan : ext2fsIterateDir machine fuel dir (some name) fs =
      iterateDirFrom machine { dir with inode } (some name) fuel 0 middle := Prog.bind_run_ok read
  rw [scan]
  exact iterateDirFrom_right_iff fixed reliable readable later tiles enough

/-- A directory of 24 bytes with two entries for the name f. -/
def twoEntries (first second : UInt8) : Image := .ofRuns [(32768 + 5 * 1024,
  [first, 0, 0, 0, 12, 0, 1, 1, 102, 0, 0, 0, second, 0, 0, 0, 12, 0, 1, 1, 102, 0, 0, 0])]

def twoDir : Node := { zeroNode with inode := { raw := .ofRuns [(4, [24]), (40, [5])] } }

def fEntry (inode : Nat) : Entry := { inode, direntlen := 12, filetype := 1, filename := [102] }

theorem twoDir_readable (image : Nat → Image) : Readable image zeroDisk.part twoDir :=
  oneBlock_readable image (by decide +kernel) (by decide +kernel) (by decide +kernel)

theorem iterateDir_live_sample : ∃ node after,
    ext2fsIterateDir (diskMachine (twoEntries 3 0)) 3 twoDir (some [102]) zeroDisk = .ok (node, .reg) after ∧
    node.ino = 3 := by
  have steady := diskMachine_steady (twoEntries 3 0)
  have tiles : Tiles (dirImage (fun _ => twoEntries 3 0) zeroDisk.part twoDir) twoDir.inode.size 0
      [fEntry 3, fEntry 0] := by decide +kernel
  have live : liveEntry [102] [fEntry 3, fEntry 0] = some (fEntry 3) := rfl
  have typed : EntryType (diskMachine (twoEntries 3 0)) twoDir.data zeroDisk (fEntry 3) .reg := rfl
  have fine : Undisturbed (diskMachine (twoEntries 3 0)) (fun _ => twoEntries 3 0) zeroDisk twoDir [102] 0
      [fEntry 3, fEntry 0] := by
    refine ⟨fun _ inside => absurd inside List.not_mem_nil, fun _ inside => absurd inside List.not_mem_nil,
      fun _ inside => absurd inside List.not_mem_nil, fun entry found => ?_⟩
    cases live.symm.trans found
    exact ⟨by decide, .reg, typed⟩
  have right := (iterateDir_live_iff steady.fixed steady.reliable (zeroDisk_warm fun _ => twoEntries 3 0)
    (rfl : nodeInode _ twoDir zeroDisk = _) (twoDir_readable _) tiles (by decide : 2 < 3)).mpr fine
  obtain ⟨node, type, after, run, number, same⟩ := right.found _ live
  obtain rfl : type = .reg := same
  exact ⟨node, after, run, number⟩

/-- An unused entry with an old name is found in front of the live one. -/
theorem iterateDir_unused :
    ¬∀ (machine : Machine) (image : Nat → Image) (dir : Node) (fs middle : Fs) (inode : Inode) (name : Str)
      (entries : List Entry) (fuel : Nat), machine.Fixed image → machine.Reliable → Warm image fs fs →
      nodeInode machine dir fs = .ok inode middle → Readable image fs.part { dir with inode } →
      Tiles (dirImage image fs.part { dir with inode }) inode.size 0 entries → entries.length < fuel →
      Right machine dir.data fs name entries (ext2fsIterateDir machine fuel dir (some name) fs) := by
  intro finds
  have steady := diskMachine_steady (twoEntries 0 3)
  have tiles : Tiles (dirImage (fun _ => twoEntries 0 3) zeroDisk.part twoDir) twoDir.inode.size 0
      [fEntry 0, fEntry 3] := by decide +kernel
  have right := finds _ _ twoDir _ _ _ [102] _ 3 steady.fixed steady.reliable (zeroDisk_warm fun _ => twoEntries 0 3)
    rfl (twoDir_readable _) tiles (by decide)
  obtain ⟨node, type, after, run, number, -⟩ := right.found (fEntry 3) rfl
  have first : (ext2fsIterateDir (diskMachine (twoEntries 0 3)) 3 twoDir (some [102]) zeroDisk).value?.map
      (fun found => found.1.ino) = some 0 := by decide +kernel
  rw [run] at first
  have zero : node.ino = 0 := Option.some.inj first
  rw [number] at zero
  exact absurd zero (by decide)

end IQuik.Ext2
