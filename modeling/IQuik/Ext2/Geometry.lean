import IQuik.Ext2.Endings
import IQuik.Ext2.Mounts
import IQuik.Program.Exits

namespace IQuik.Ext2

open IQuik.Data IQuik.Program IQuik.Storage

/-! # The numbers of a superblock

Three numbers of a superblock become divisors and counts of shifts, and
`ext2fs_mount` checks none of them. Here is which of them never lead to an
operation without a result. The other divisors are the bytes in a block and the
pointers in one, and there are more pointers in a block than descriptors.
-/

/-- What the code divides and shifts by has results. -/
structure Sound (data : Ext2Data) (inodeSize : Nat) : Prop where
  groups : data.inodesPerGroup ≠ 0
  least : 9 ≤ data.log2Bytes
  most : data.log2Bytes < 32
  inodes : inodeSize ≠ 0 ∧ inodeSize ≤ data.blockBytes

instance (data : Ext2Data) (inodeSize : Nat) : Decidable (Sound data inodeSize) :=
  decidable_of_iff (data.inodesPerGroup ≠ 0 ∧ 9 ≤ data.log2Bytes ∧ data.log2Bytes < 32 ∧
      (inodeSize ≠ 0 ∧ inodeSize ≤ data.blockBytes))
    ⟨fun sound => ⟨sound.1, sound.2.1, sound.2.2.1, sound.2.2.2⟩,
      fun sound => ⟨sound.groups, sound.least, sound.most, sound.inodes⟩⟩

variable {machine : Machine} {data : Ext2Data} {inodeSize : Nat}

theorem shift_iff (most : data.log2Bytes < 32) : 
    data.log2Ext2BlockSize < 32 ↔ 9 ≤ data.log2Bytes := by
  have bound : data.log2BlockSize < 2 ^ 32 := Image.le32_lt _ _
  unfold Ext2Data.log2Bytes at most ⊢
  unfold Ext2Data.log2Ext2BlockSize
  omega

theorem Sound.shift (sound : Sound data inodeSize) : data.log2Ext2BlockSize < 32 :=
  (shift_iff sound.most).mpr sound.least

theorem Sound.descriptors (sound : Sound data inodeSize) : data.blockBytes / 32 ≠ 0 := by
  have least : 2 ^ 9 ≤ data.blockBytes := Nat.pow_le_pow_right (by decide) sound.least
  omega

section Safety

variable {σ α β : Type} {inv : σ → Prop} {holds : α → Prop} {holds' : β → Prop}

/-- A program that has no fault as long as `inv` holds, and that keeps it. -/
def Safe (inv : σ → Prop) (program : Prog QuikErr σ α) (holds : α → Prop) : Prop :=
  Prog.Exits False inv program (fun value state => inv state ∧ holds value) fun _ _ => True

theorem Safe.bind {first : Prog QuikErr σ α} {next : α → Prog QuikErr σ β} (begins : Safe inv first holds)
    (goes : ∀ value, holds value → Safe inv (next value) holds') : Safe inv (first >>= next) holds' :=
  Prog.Exits.bind begins fun value state known => goes value known.2 state known.1

theorem Safe.pure {value : α} (known : holds value) : Safe inv (pure value : Prog QuikErr σ α) holds :=
  Prog.Exits.pure fun _ kept => ⟨kept, known⟩

theorem Safe.fail (code : QuikErr) : Safe inv (Prog.fail code : Prog QuikErr σ α) holds :=
  Prog.Exits.fail fun _ _ => trivial

theorem Safe.view (field : σ → α) : Safe inv (Prog.view field) fun _ => True :=
  Prog.Exits.view fun _ kept => ⟨kept, trivial⟩

theorem Safe.viewed {field : σ → α} (known : ∀ state, inv state → holds (field state)) :
    Safe inv (Prog.view field) holds :=
  Prog.Exits.view fun state kept => ⟨kept, known state kept⟩

theorem Safe.update {store : σ → σ} (kept : ∀ state, inv state → inv (store state)) :
    Safe inv (Prog.update store : Prog QuikErr σ Unit) fun _ => True :=
  Prog.Exits.update fun state known => ⟨kept state known, trivial⟩

theorem Safe.demand (condition : Prop) [Decidable condition] :
    Safe inv (Prog.demand condition : Prog QuikErr σ Unit) fun _ => condition :=
  Prog.Exits.demand fun known _ kept => ⟨kept, known⟩

theorem Safe.arith {condition : Prop} [Decidable condition] (known : condition) :
    Safe inv (Prog.arith condition : Prog QuikErr σ Unit) fun _ => True :=
  Prog.Exits.arith (.inr known) fun _ _ kept => ⟨kept, trivial⟩

theorem Safe.defined (value : Option α) : Safe inv (Prog.defined value : Prog QuikErr σ α) fun _ => True :=
  Prog.Exits.defined fun _ _ _ kept => ⟨kept, trivial⟩

theorem Safe.ite {condition : Prop} [Decidable condition] {yes no : Prog QuikErr σ α} (begins : Safe inv yes holds)
    (goes : Safe inv no holds) : Safe inv (if condition then yes else no) holds :=
  Prog.Exits.ite (fun _ => begins) fun _ => goes

theorem Safe.mapError {rename : QuikErr → QuikErr} {program : Prog QuikErr σ α} (safe : Safe inv program holds) :
    Safe inv (Prog.mapError rename program) holds :=
  Prog.Exits.mapError safe

theorem Safe.attempt {program : Prog QuikErr σ α} (safe : Safe (fun _ => True) program holds) :
    Safe (fun _ => True) (Prog.attempt program) fun _ => True :=
  Prog.Exits.conseq (Prog.Exits.attempt safe) (fun _ => id) (fun _ _ _ => ⟨trivial, trivial⟩) fun _ _ => id

theorem Safe.confine {inside : σ → Prop} [DecidablePred inside] {program : Prog QuikErr σ α}
    (safe : Safe inv program holds) : Safe inv (Prog.confine inside program) holds := Prog.Exits.confine safe

theorem Safe.unfinished : Safe inv (Prog.unfinished : Prog QuikErr σ α) holds := Prog.Exits.unfinished

theorem Safe.onFirst {τ : Type} {program : Prog QuikErr σ α} (safe : Safe inv program holds) :
    Safe (fun state : σ × τ => inv state.1) (Prog.onFirst program) holds :=
  Prog.Exits.onFirst fun _ => safe

theorem Safe.scratch {τ : Type} {start : τ} {program : Prog QuikErr (σ × τ) Unit}
    (safe : Safe (fun state : σ × τ => inv state.1) program fun _ => True) :
    Safe inv (Prog.scratch start program) fun _ => True :=
  Prog.Exits.scratch (Prog.Exits.conseq safe (fun _ known => known.1) (fun _ _ known => known) fun _ _ => id)

theorem Safe.inPlace {τ : Type} {get : σ → τ} {put : τ → σ → σ} {program : Prog QuikErr (σ × τ) Unit}
    (safe : Safe (fun state : σ × τ => inv state.1) program fun _ => True)
    (kept : ∀ part state, inv state → inv (put part state)) :
    Safe inv (Prog.inPlace get put program) fun _ => True :=
  Prog.Exits.inPlace (Prog.Exits.conseq safe (fun _ known => known)
    (fun _ state known => ⟨kept state.2 state.1 known.1, trivial⟩) fun _ _ => id)

end Safety

/-- A property of the globals that reading keeps, and that fixes the size of an
inode, on a volume with sound numbers. -/
structure Kept (inv : Fs → Prop) (data : Ext2Data) (inodeSize : Nat) : Prop where
  sound : Sound data inodeSize
  near : ∀ {fs after}, Near fs after → inv fs → inv after
  sizes : ∀ {fs}, inv fs → fs.inodeSize = inodeSize

section Reading

variable {inv : Fs → Prop} (kept : Kept inv data inodeSize)
include kept

abbrev FillSafe (inv : Fs → Prop) (program : FillProg Unit) : Prop :=
  Safe (fun state : Fs × Buffer => inv state.1) program fun _ => True

omit kept in
theorem shl32_safe {σ : Type} {inv : σ → Prop} (value : Nat) {count : Nat} (known : count < 32) :
    Safe inv (shl32 value count) fun _ => True :=
  .bind (.arith known) fun _ _ => .pure trivial

omit kept in
theorem ext2BlockSize_safe {σ : Type} {inv : σ → Prop} (sound : Sound data inodeSize) :
    Safe inv (ext2BlockSize data) fun blksz => blksz = data.blockBytes :=
  .bind (.arith sound.most) fun _ _ => .pure rfl

omit kept in
theorem ext2BlockSizeInt_safe {σ : Type} {inv : σ → Prop} (sound : Sound data inodeSize) :
    Safe inv (ext2BlockSizeInt data) fun _ => True :=
  .bind (ext2BlockSize_safe sound) fun _ _ => .bind (.demand _) fun _ _ => .pure trivial

theorem malloc_safe (size : Nat) : Safe inv (malloc machine size) fun _ => True := by
  intro fs known
  unfold malloc
  by_cases granted : machine.grants fs.mallocs size
  · rw [if_pos granted]
    exact ⟨kept.near ⟨_, _, _, _, rfl⟩ known, trivial⟩
  · rw [if_neg granted]
    trivial

theorem partRead_safe (sector byteOffset byteLen place : Nat) :
    FillSafe inv (partRead machine sector byteOffset byteLen place) := by
  have read : ∀ dev nbytes offset, Safe inv (diskRead machine dev nbytes offset) fun _ => True := by
    intro dev nbytes offset fs known
    unfold diskRead
    split
    · exact ⟨known, trivial⟩
    · exact ⟨kept.near ⟨_, _, _, _, rfl⟩ known, trivial⟩
  refine .bind (.view _) fun part _ => .ite (.fail _) (.bind (.onFirst (read _ _ _)) fun answer _ => ?_)
  exact .bind (.update fun _ known => known) fun _ _ => .ite (.pure trivial) (.fail _)

theorem readStruct_safe (sector byteOffset width : Nat) :
    Safe inv (readStruct machine sector byteOffset width) fun _ => True :=
  .bind (.scratch (partRead_safe kept _ _ _ _)) fun _ _ => .pure trivial

theorem readInode_safe (ino : Nat) : Safe inv (ext2fsReadInode machine data ino) fun _ => True := by
  have sound := kept.sound
  have group : ∀ group, Safe inv (ext2fsBlockgroup machine data group) fun _ => True := by
    intro group
    refine .bind (ext2BlockSize_safe sound) fun blksz size => ?_
    refine .bind (.arith (size ▸ sound.descriptors)) fun _ _ => ?_
    exact .bind (shl32_safe _ sound.shift) fun _ _ => readStruct_safe kept _ _ _
  refine .bind (.arith sound.groups) fun _ _ => .bind (group _) fun _ _ => ?_
  refine .bind (ext2BlockSize_safe sound) fun blksz size => ?_
  have view : Safe inv (Prog.view Fs.inodeSize) fun width => width = inodeSize := .viewed fun _ => kept.sizes
  refine .bind view fun width same => ?_
  obtain ⟨nonzero, fits⟩ := sound.inodes
  refine .bind (.arith (same ▸ nonzero)) fun _ _ => .bind (.arith ?_) fun _ _ => ?_
  · rw [same, size]
    exact Nat.ne_of_gt (Nat.div_pos fits (Nat.pos_of_ne_zero nonzero))
  · exact .bind (shl32_safe _ sound.shift) fun _ _ => .bind (readStruct_safe kept _ _ _) fun _ _ => .pure trivial

theorem nodeInode_safe {node : Node} (same : node.data = data) : Safe inv (nodeInode machine node) fun _ => True :=
  .ite (.pure trivial) (same ▸ readInode_safe kept _)

theorem loadIndir_safe (slot : Slot) (blksz : Nat) {log2Blksz : Nat} (shift : log2Blksz < 32) {pointer : FsProg Nat}
    (points : Safe inv pointer fun _ => True) : Safe inv (loadIndir machine slot blksz log2Blksz pointer) fun _ => True := by
  have put : ∀ cache fs, inv fs → inv (slot.put cache fs) := fun cache fs known =>
    kept.near (put_near slot cache fs) known
  have allocate : Safe inv (allocateIndir machine slot blksz) fun _ => True :=
    .bind (malloc_safe kept _) fun _ _ => .update fun fs known => put _ fs known
  have ensure : Safe inv (ensureIndir machine slot blksz) fun _ => True := by
    refine .bind (.view _) fun cache _ => ?_
    have second : Safe inv (do
        let cache ← Prog.view slot.get
        if blksz ≠ cache.size then do
          Prog.update (slot.put .empty)
          allocateIndir machine slot blksz) fun _ => True :=
      .bind (.view _) fun cache _ =>
        .ite (.bind (.update fun fs known => put _ fs known) fun _ _ => allocate) (.pure trivial)
    exact .ite (.bind allocate fun _ _ => second) second
  have fill : ∀ sector, Safe inv (fillIndir machine slot blksz sector) fun _ => True := by
    intro sector
    refine .bind (.inPlace (partRead_safe kept _ _ _ _) fun _ fs known => put _ fs known) fun _ _ => ?_
    exact .update fun fs known => put _ fs known
  refine .bind ensure fun _ _ => .bind points fun _ _ => .bind (shl32_safe _ shift) fun sector _ => ?_
  exact .bind (.view _) fun cache _ => .ite (fill sector) (.pure trivial)

omit kept in
theorem indirEntry_safe (slot : Slot) (index : Nat) : Safe inv (indirEntry slot index) fun _ => True :=
  .bind (.view _) fun _ _ => .bind (.demand _) fun _ _ => .defined _

theorem readBlock_safe {node : Node} (same : node.data = data) (i : Nat) :
    Safe inv (ext2fsReadBlock machine node i) fun _ => True := by
  subst same
  have shift := kept.sound.shift
  refine .bind (ext2BlockSizeInt_safe kept.sound) fun blksz _ => .bind (.demand _) fun _ _ => ?_
  refine .ite (.pure trivial) (.ite ?_ ?_)
  · exact .bind (loadIndir_safe kept _ _ shift (.pure trivial)) fun _ _ => indirEntry_safe _ _
  · refine .bind (.demand _) fun _ _ => .ite ?_ (.fail _)
    refine .bind (loadIndir_safe kept _ _ shift (.pure trivial)) fun _ _ => ?_
    exact .bind (loadIndir_safe kept _ _ shift (indirEntry_safe _ _)) fun _ _ => indirEntry_safe _ _

theorem readFile_safe {node : Node} (same : node.data = data) (pos len : Nat) :
    FillSafe inv (ext2fsReadFile machine node pos len) := by
  have block : ∀ range i place, range.node.data = data → FillSafe inv (readFileBlock machine range i place) := by
    intro range i place same
    refine .bind (.onFirst (.bind (readBlock_safe kept same _) fun _ _ => shl32_safe _ ?_)) fun sector _ => ?_
    · rw [same]
      exact kept.sound.shift
    · exact .ite (partRead_safe kept _ _ _ _) (.update fun _ known => known)
  have blocks : ∀ range count i place, range.node.data = data → FillSafe inv (readFileBlocks machine range count i place) := by
    intro range count i place same
    unfold readFileBlocks
    induction count generalizing i place with
    | zero => exact .pure trivial
    | succ count ih => exact .bind (block _ _ _ same) fun _ _ => ih _ _
  subst same
  exact .bind (.onFirst (ext2BlockSizeInt_safe kept.sound)) fun blocksize _ => blocks _ _ _ _ rfl

theorem readLocal_safe (room : Nat) {node : Node} (same : node.data = data) (pos len : Nat) :
    Safe inv (readLocal machine room node pos len) fun _ => True :=
  .scratch (.confine (readFile_safe kept same pos len))

theorem direntAt_safe {dir : Node} (same : dir.data = data) (fpos : Nat) :
    Safe inv (direntAt machine dir fpos) fun read => ∀ entry, read.2 = some entry → entry.node.data = data := by
  have node : ∀ ino filetype, Safe inv (direntNode machine dir.data ino filetype) fun found => found.1.data = data := by
    intro ino filetype
    subst same
    refine .bind (malloc_safe kept _) fun _ _ => .ite (.pure rfl) ?_
    exact .bind (readInode_safe kept ino) fun _ _ => .pure rfl
  refine .bind (readLocal_safe kept _ same _ _) fun dirent _ => .bind (.defined _) fun namelen _ => .ite ?_ ?_
  · refine .bind (readLocal_safe kept _ same _ _) fun filename _ => ?_
    refine .bind (.defined _) fun ino _ => .bind (.defined _) fun filetype _ => ?_
    refine .bind (node ino filetype) fun entry same => .bind (.defined _) fun direntlen _ => .pure ?_
    intro found is
    cases is
    exact same
  · exact .bind (.defined _) fun _ _ => .pure nofun

theorem iterateDir_safe {dir : Node} (same : dir.data = data) (fuel : Nat) (name : Option Str) :
    Safe inv (ext2fsIterateDir machine fuel dir name) fun found => found.1.data = data := by
  have loop : ∀ dir, dir.data = data → ∀ fuel fpos,
      Safe inv (iterateDirFrom machine dir name fuel fpos) fun found => found.1.data = data := by
    intro dir same fuel
    induction fuel with
    | zero => exact fun _ => .unfinished
    | succ fuel ih =>
        intro fpos
        refine .ite (.bind (direntAt_safe kept same fpos) fun read node => ?_) (.fail _)
        obtain ⟨direntlen, entry⟩ := read
        cases entry with
        | none => exact ih _
        | some entry =>
            have same : entry.node.data = data := node entry rfl
            cases name with
            | none => exact .bind (nodeInode_safe kept same) fun _ _ => ih _
            | some name => exact .bind (.defined _) fun _ _ => .ite (.pure same) (ih _)
  exact .bind (nodeInode_safe kept same) fun inode _ => loop { dir with inode } same fuel 0

theorem readSymlink_safe {node : Node} (same : node.data = data) :
    Safe inv (ext2fsReadSymlink machine node) fun _ => True := by
  refine .bind (nodeInode_safe kept same) fun inode _ => .bind (malloc_safe kept _) fun _ _ => .ite (.pure trivial) ?_
  have whole : ({ node with inode } : Node).data = data := same
  exact .bind (.scratch (readFile_safe kept whole _ _)) fun _ _ => .defined _

end Reading

section Lookups

/-- The volume that is mounted. -/
structure MountOf (data : Ext2Data) (inodeSize : Nat) (fs : Fs) : Prop where
  sizes : fs.inodeSize = inodeSize
  root : fs.root = some data

theorem MountOf.kept (sound : Sound data inodeSize) : Kept (MountOf data inodeSize) data inodeSize where
  sound := sound
  near close known := ⟨close.inodeSize.trans known.sizes, close.root.trans known.root⟩
  sizes known := known.sizes

variable (sound : Sound data inodeSize)
include sound

theorem findLoop_safe (fuel : Nat) (name : Str) {node : Node} (same : node.data = data) (type : FileType) :
    Safe (MountOf data inodeSize) (findLoop machine fuel name node type) fun found => found.1.data = data := by
  have kept := MountOf.kept sound
  induction fuel generalizing name node type with
  | zero => exact .unfinished
  | succ fuel ih =>
      rw [findLoop_eq]
      refine .ite (.fail _) (.bind (iterateDir_safe kept same _ _) fun entry same' => ?_)
      have find : ∀ path root, root.data = data →
          Safe (MountOf data inodeSize) (ext2fsFindFile1 machine fuel path root) fun found => found.1.data = data := by
        intro path root same
        unfold ext2fsFindFile1 enterPath
        split
        · exact .pure same
        · exact ih _ same _
      have follow : Safe (MountOf data inodeSize) (followSymlink machine (ext2fsFindFile1 machine fuel) entry.1 node)
          fun found => found.1.data = data := by
        rw [followSymlink_eq]
        refine .bind (.update fun fs known => ⟨known.sizes, known.root⟩) fun _ _ => .bind (.view _) fun nest _ => ?_
        refine .ite (.fail _) (.bind (readSymlink_safe kept same') fun symlink _ => ?_)
        have root : Safe (MountOf data inodeSize) (targetRoot node symlink) fun root => root.data = data := by
          have view : Safe (MountOf data inodeSize) (Prog.view Fs.root) fun root => root = some data :=
            .viewed fun _ known => known.root
          refine .ite (.bind view fun root is => ?_) (.pure same)
          subst is
          exact .pure rfl
        exact .bind root fun root same => .bind (.mapError (find symlink root same)) fun found same => .pure same
      refine .bind (.ite follow (.pure same')) fun found same => ?_
      unfold goOn
      split
      · exact .pure same
      · exact .pure same
      · exact ih _ same _

theorem findFile_safe (fuel : Nat) (path : Str) {rootnode : Node} (same : rootnode.data = data) (expecttype : FileType) :
    Safe (MountOf data inodeSize) (ext2fsFindFile machine fuel path rootnode expecttype)
      fun found => found.1.data = data := by
  have find : Safe (MountOf data inodeSize) (ext2fsFindFile1 machine fuel path rootnode)
      fun found => found.1.data = data := by
    unfold ext2fsFindFile1 enterPath
    split
    · exact .pure same
    · exact findLoop_safe sound fuel _ same _
  refine .bind (.update fun fs known => ⟨known.sizes, known.root⟩) fun _ _ => .bind find fun found same => ?_
  exact .ite (.fail _) (.ite (.fail _) (.pure same))

/-- A file of the volume is open. -/
def FileOf (data : Ext2Data) (inodeSize : Nat) (fs : Fs) : Prop :=
  MountOf data inodeSize fs ∧ ∃ node, fs.file = some node ∧ node.data = data

theorem open_exits (fuel : Nat) (filename : Str) :
    Prog.Exits False (MountOf data inodeSize) (ext2fsOpen machine fuel filename)
      (fun _ fs => FileOf data inodeSize fs) fun _ _ => True := by
  have kept := MountOf.kept sound
  intro fs known
  unfold ext2fsOpen
  rw [Prog.view_bind, known.root]
  refine Prog.Exits.bind (Safe.update fun fs known => ⟨known.sizes, known.root⟩) (fun _ => ?_) fs known
  refine .bind ((findFile_safe sound fuel filename rfl _).conseq (fun _ known => known.1) (fun _ _ known => known)
    fun _ _ => id) fun found state ⟨known, same⟩ => ?_
  refine Prog.Exits.bind (nodeInode_safe kept same) (fun inode => ?_) state known
  refine Prog.Exits.bind (Prog.Exits.update fun fs ⟨known, _⟩ => ?_) fun _ => Prog.Exits.pure fun _ known => known
  exact ⟨⟨known.sizes, known.root⟩, { found.1 with inode }, rfl, same⟩

theorem ls_exits (fuel : Nat) (dirname : Str) :
    Prog.Exits False (MountOf data inodeSize) (ext2fsLs machine fuel dirname) (fun _ _ => True) fun _ _ => True := by
  have kept := MountOf.kept sound
  intro fs known
  unfold ext2fsLs
  rw [Prog.view_bind, known.root]
  refine Prog.Exits.bind (findFile_safe sound fuel dirname rfl _) (fun found state ⟨known, same⟩ => ?_) fs known
  have lists := Prog.Exits.attempt (show Safe _ (ext2fsIterateDir machine fuel found.1 none) _ from
    iterateDir_safe kept same fuel none)
  exact Prog.Exits.bind lists (fun _ => Prog.Exits.pure fun _ _ => trivial) state known

theorem read_exits (len : Nat) : Prog.Exits False (fun state : Fs × Buffer => FileOf data inodeSize state.1)
    (ext2fsRead machine len) (fun _ _ => True) fun _ _ => True := by
  rintro ⟨fs, buffer⟩ ⟨known, node, file, same⟩
  have view : (Prog.onFirst (Prog.view fun fs : Fs => (fs.root, fs.file)) : FillProg _) (fs, buffer) =
      .ok (some data, some node) (fs, buffer) := by
    rw [← known.root, ← file]
    rfl
  unfold ext2fsRead
  rw [Prog.bind_run_ok view]
  exact Prog.Exits.conseq (readFile_safe (MountOf.kept sound) same 0 len) (fun _ => id) (fun _ _ _ => trivial)
    (fun _ _ => id) (fs, buffer) known

end Lookups

section Mounting

/-- The superblock at the start of a partition. -/
def Superblock (machine : Machine) (part : Part) (sblock : Image) : Prop :=
  ∀ call index, index < 204 → (machine.read call part.dev (1024 + part.start) 204).bytes index = sblock index

/-- The volume of a superblock, as far as it is known before the root is read. -/
def superData (sblock : Image) : Ext2Data := { sblock, rootInode := { raw := fun _ => 0 } }

/-- `inode_size` after a mount. -/
def superInodeSize (sblock : Image) : Nat := if sblock.le32 76 = 0 then 128 else sblock.le16 88

variable {part : Part} {sblock : Image}

theorem Sound.congr {left right : Ext2Data} (sound : Sound right inodeSize)
    (same : ∀ index, index < 204 → left.sblock index = right.sblock index) : Sound left inodeSize := by
  have word : ∀ offset, offset < 200 → left.sblock.le32 offset = right.sblock.le32 offset := fun offset inside =>
    Image.le32_congr fun index _ upper => same index (by omega)
  have groups : left.inodesPerGroup = right.inodesPerGroup := word 40 (by decide)
  have bytes : left.log2Bytes = right.log2Bytes := by
    unfold Ext2Data.log2Bytes Ext2Data.log2BlockSize
    rw [word 24 (by decide)]
  have size : left.blockBytes = right.blockBytes := by
    unfold Ext2Data.blockBytes
    rw [bytes]
  obtain ⟨nonzero, least, most, inodes⟩ := sound
  exact ⟨groups ▸ nonzero, bytes ▸ least, bytes ▸ most, by rwa [size]⟩

theorem superInodeSize_congr {other : Image} (same : ∀ index, index < 204 → other index = sblock index) :
    superInodeSize other = superInodeSize sblock := by
  have revision : other.le32 76 = sblock.le32 76 := Image.le32_congr fun index _ upper => same index (by omega)
  have width : other.le16 88 = sblock.le16 88 := Image.le16_congr fun index _ upper => same index (by omega)
  unfold superInodeSize
  rw [revision, width]

theorem readStruct_super (super : Superblock machine part sblock) :
    Prog.Exits False (fun fs => fs.part = part) (readStruct machine 2 0 204)
      (fun read fs => fs.part = part ∧ ∀ index, index < 204 → read index = sblock index) fun _ _ => True := by
  have read : Prog.Exits False (fun state : Fs × Buffer => state.1.part = part ∧ state.2 = Buffer.blank)
      (partRead machine 2 0 204 0)
      (fun _ after => after.1.part = part ∧ ∀ index, index < 204 → after.2 index = some (sblock index))
      fun _ _ => True := by
    rintro ⟨fs, buffer⟩ ⟨rfl, rfl⟩
    unfold partRead
    rw [Prog.view_bind]
    by_cases beyond : fs.part.len ≤ 2 * 512 + 0 + 204
    · rw [if_pos beyond]
      trivial
    rw [if_neg beyond]
    have answer : Prog.onFirst (diskRead machine fs.part.dev 204 (2 * 512 + fs.part.start + 0)) (fs, Buffer.blank) =
        .ok (machine.read fs.calls fs.part.dev (1024 + fs.part.start) 204) ({ fs with calls := fs.calls + 1 }, Buffer.blank) := rfl
    rw [Prog.bind_run_ok answer, Prog.update_bind]
    split
    · rename_i whole
      refine ⟨rfl, fun index inside => ?_⟩
      rw [Delivery.stored_whole whole]
      refine (Buffer.store_inside (Nat.zero_le _) (by omega)).trans (congrArg some ?_)
      exact super _ index inside
    · trivial
  have fresh : Prog.Exits False (fun fs => fs.part = part) (Prog.scratch Buffer.blank (partRead machine 2 0 204 0))
      (fun buffer fs => fs.part = part ∧ ∀ index, index < 204 → buffer index = some (sblock index)) fun _ _ => True :=
    .scratch read
  refine .bind fresh fun buffer => .pure fun fs known => ⟨known.1, fun index inside => ?_⟩
  unfold Buffer.image
  rw [known.2 index inside]
  rfl

theorem mount_exits (sound : Sound (superData sblock) (superInodeSize sblock))
    (super : Superblock machine part sblock) :
    Prog.Exits False (fun fs => fs.part = part) (ext2fsMount machine)
      (fun _ fs => ∃ data, Sound data (superInodeSize sblock) ∧ MountOf data (superInodeSize sblock) fs)
      fun _ _ => True := by
  have room : Prog.Exits False (fun fs => fs.part = part) (malloc machine 352) (fun _ fs => fs.part = part)
      fun _ _ => True := by
    rintro fs rfl
    unfold malloc
    by_cases granted : machine.grants fs.mallocs 352
    · rw [if_pos granted]
      rfl
    · rw [if_neg granted]
      trivial
  have read : Prog.Exits False (fun fs => fs.part = part) (readSuper machine)
      (fun data fs => Sound data (superInodeSize sblock) ∧ fs.inodeSize = superInodeSize sblock) fun _ _ => True := by
    refine .bind (readStruct_super super) fun image => ?_
    rintro fs ⟨-, same⟩
    have whole : ∀ rootInode, Sound { sblock := image, rootInode } (superInodeSize sblock) :=
      fun rootInode => sound.congr same
    by_cases magic : image.le16 56 ≠ 0xEF53
    · rw [if_pos magic]
      trivial
    rw [if_neg magic, Prog.update_bind]
    have kept : Kept (fun fs => fs.inodeSize = superInodeSize sblock)
        { sblock := image, rootInode := { raw := fun _ => 0 } } (superInodeSize sblock) :=
      ⟨whole _, fun near known => near.inodeSize.trans known, id⟩
    refine Prog.Exits.bind (readInode_safe kept 2) (fun rootInode => .pure fun fs known => ?_) _
      (superInodeSize_congr same)
    exact ⟨whole rootInode, known.1⟩
  have counted : Prog.Exits False (fun fs => fs.part = part)
      (Prog.update fun fs : Fs => { fs with dataBlocks := fs.dataBlocks + 1 }) (fun _ fs => fs.part = part)
      fun (_ : QuikErr) _ => True := .update fun _ known => known
  refine .bind room fun _ => .bind counted fun _ => ?_
  refine .bind (.onError read) fun data => .update fun fs known => ?_
  exact ⟨data, known.1, known.2, rfl⟩

/-- Opening a partition does no arithmetic without a result. -/
theorem partOpen_exits (machine : Machine) (fuel : Nat) (device : Str) (partno : Nat) :
    Safe (fun _ => True) (partOpen machine fuel device partno) fun _ => True := by
  have disk : ∀ dev nbytes offset, Safe (fun _ => True) (diskRead machine dev nbytes offset) fun _ => True := by
    intro dev nbytes offset fs _
    unfold diskRead
    split <;> exact ⟨trivial, trivial⟩
  have room : ∀ size, Safe (fun _ => True) (malloc machine size) fun _ => True := by
    intro size fs _
    unfold malloc
    by_cases granted : machine.grants fs.mallocs size
    · rw [if_pos granted]
      exact ⟨trivial, trivial⟩
    · rw [if_neg granted]
      trivial
  have sector : ∀ dev offset, Safe (fun _ => True) (readSector machine dev offset) fun _ => True :=
    fun dev offset => .bind (disk _ _ _) fun answer _ => .ite (.pure trivial) (.fail _)
  have entries : ∀ dev secsize fuel i blocks,
      Safe (fun _ => True) (readMacEntries machine dev partno secsize fuel i blocks) fun _ => True := by
    intro dev secsize fuel
    induction fuel with
    | zero => exact fun _ _ => .unfinished
    | succ fuel ih =>
        intro i blocks
        refine .ite (.bind (sector dev _) fun entry _ => ?_) (.fail _)
        exact .ite (.fail _) (.ite (.pure trivial) (ih _ _))
  have table : ∀ dev, Safe (fun _ => True) (readTable machine fuel dev partno) fun _ => True := by
    intro dev
    have mac : Safe (fun _ => True) (readMacPartition machine fuel dev partno) fun _ => True :=
      .bind (sector dev 0) fun block _ => .ite (.fail _) (entries _ _ _ _ _)
    refine .bind (.attempt mac) fun result _ => ?_
    split
    · exact .pure trivial
    · exact .mapError (.bind (sector dev 0) fun block _ => .ite (.fail _) (.ite (.fail _) (.pure trivial)))
    · exact .fail _
  have call : ∀ device, Safe (fun _ => True) (openCall machine device) fun _ => True := by
    intro device
    refine .bind (.view _) fun call _ => .bind (.update fun _ known => known) fun _ _ => ?_
    split
    · exact .bind (.update fun _ known => known) fun _ _ => .pure trivial
    · exact .fail _
  have find : Safe (fun _ => True) (partFind machine fuel device partno) fun _ => True := by
    refine .bind (.ite (.bind (room _) fun _ _ => call _) (call _)) fun dev _ => ?_
    exact .bind (Prog.Exits.onError (table dev)) fun extent _ => .update fun _ known => known
  refine .bind (.view _) fun part _ => .bind (.ite (.defined _) (.pure trivial)) fun already _ => ?_
  have close : Safe (fun _ => True) partClose fun _ => True :=
    .bind (.view _) fun _ _ => .update fun _ known => known
  exact .ite (.pure trivial) (.ite (.bind close fun _ _ => find) find)

end Mounting

section Calls

/-- A call in which an operation has no result. -/
def FileOp.Faults (machine : Machine) (fuel : Nat) : FileOp → Fs → Prop
  | .len path, fs => fileLen machine fuel path fs = .fault
  | .load path buffer, fs => fileLoad machine fuel path (fs, buffer) = .fault
  | .ls path, fs => fileLs machine fuel path fs = .fault

/-- After whatever calls, no call on a volume with this superblock has a fault. -/
def Faultless (sblock : Image) : Prop :=
  ∀ machine fuel fs (op : FileOp), History machine fuel fs →
    (∀ opened, partOpen machine fuel op.path.device op.path.part fs = .ok () opened →
      Superblock machine opened.part sblock) →
    ¬op.Faults machine fuel fs

theorem History.unmounted {fuel : Nat} {fs : Fs} (history : History machine fuel fs) : fs.part.mounted = false := by
  induction history with
  | startUp => rfl
  | call op history returned unmounted =>
      rcases FileOp.run_cases returned with ⟨code, failed⟩ | ⟨opened, opens, same⟩
      · exact (openExt2_cases unmounted (by rw [failed]; rfl)).1
      · rw [(Prod.mk.inj same).1]
        exact (openExt2_cases unmounted (by rw [opens]; rfl)).1

variable {sblock : Image} {fuel : Nat} {fs : Fs}

theorem openExt2_exits (sound : Sound (superData sblock) (superInodeSize sblock)) (unmounted : fs.part.mounted = false)
    {device : Str} {partno : Nat} (super : ∀ opened, partOpen machine fuel device partno fs = .ok () opened →
      Superblock machine opened.part sblock) :
    Prog.Exits False (fun state => state = fs) (openExt2 machine fuel device partno)
      (fun _ fs => ∃ data, Sound data (superInodeSize sblock) ∧ MountOf data (superInodeSize sblock) fs)
      fun _ _ => True := by
  rintro state rfl
  rw [openExt2_unmounted unmounted]
  cases run : partOpen machine fuel device partno state with
  | ok _ opened =>
      rw [Prog.bind_run_ok run]
      exact mount_exits sound (super opened run) opened rfl
  | error code opened => rw [Prog.bind_run_error run]; trivial
  | fault => exact absurd run (Prog.Exits.no_fault (partOpen_exits machine fuel device partno) trivial)
  | undefined => rw [Prog.bind_run_undefined run]; trivial
  | unfinished => rw [Prog.bind_run_unfinished run]; trivial

theorem FileOp.no_fault (sound : Sound (superData sblock) (superInodeSize sblock)) (unmounted : fs.part.mounted = false)
    (op : FileOp) (super : ∀ opened, partOpen machine fuel op.path.device op.path.part fs = .ok () opened →
      Superblock machine opened.part sblock) : ¬op.Faults machine fuel fs := by
  have opens := openExt2_exits sound unmounted super
  have length : ∀ filename, Prog.Exits False (fun state => state = fs)
      (openExt2 machine fuel op.path.device op.path.part >>= fun _ => ext2fsOpen machine fuel filename)
      (fun _ fs => ∃ data, Sound data (superInodeSize sblock) ∧ FileOf data (superInodeSize sblock) fs)
      fun _ _ => True := by
    refine fun filename => .bind opens fun _ fs known => ?_
    obtain ⟨data, sound, known⟩ := known
    exact (open_exits sound fuel filename).conseq (fun _ => id) (fun _ _ known => ⟨data, sound, known⟩)
      (fun _ _ => id) fs known
  cases op with
  | len path => exact (length path.path).no_fault rfl
  | load path buffer =>
      have load : Prog.Exits False (fun state => state = (fs, buffer)) (fileLoad machine fuel path) (fun _ _ => True)
          fun _ _ => True := by
        have first : Prog.Exits False (fun state => state = (fs, buffer)) (Prog.onFirst (fileLen machine fuel path))
            (fun _ state => ∃ data, Sound data (superInodeSize sblock) ∧ FileOf data (superInodeSize sblock) state.1)
            fun _ _ => True :=
          .onFirst fun rest => (length path.path).conseq (fun _ same => (Prod.mk.inj same).1) (fun _ _ => id)
            fun _ _ => id
        refine .bind first fun size state known => ?_
        obtain ⟨data, sound, known⟩ := known
        exact read_exits sound size state known
      exact load.no_fault rfl
  | ls path =>
      have list : Prog.Exits False (fun state => state = fs) (fileLs machine fuel path) (fun _ _ => True)
          fun _ _ => True := by
        refine .bind opens fun _ fs known => ?_
        obtain ⟨data, sound, known⟩ := known
        exact ls_exits sound fuel path.path fs known
      exact list.no_fault rfl

end Calls

section Faults

def superTable : Image := .ofRuns [(0, [0x45, 0x52, 0x80, 0]),
  (32768, [0x50, 0x4d, 0, 0, 0, 0, 0, 1, 0, 0, 0, 2, 0xff, 0xff, 0xff, 0xff])]

/-- A disk with a partition map and one large partition, the superblock in it. -/
def superDisk (sblock : Image) : Image := fun offset =>
  if 66560 ≤ offset ∧ offset < 66764 then sblock (offset - 66560) else superTable offset

theorem superDisk_word (sblock : Image) {offset index : Nat} (low : offset + index + 4 ≤ 66560) :
    Image.be16 (fun place => superDisk sblock (offset + place)) index =
        Image.be16 (fun place => superTable (offset + place)) index ∧
      Image.be32 (fun place => superDisk sblock (offset + place)) index =
        Image.be32 (fun place => superTable (offset + place)) index := by
  have table : ∀ place, place < 66560 → superDisk sblock place = superTable place :=
    fun place below => if_neg (by omega)
  have half : ∀ index, offset + index + 2 ≤ 66560 →
      Image.be16 (fun place => superDisk sblock (offset + place)) index =
        Image.be16 (fun place => superTable (offset + place)) index := by
    intro index low
    unfold Image.be16
    dsimp only
    rw [table _ (by omega), table _ (by omega)]
  refine ⟨half index (by omega), ?_⟩
  unfold Image.be32
  rw [half index (by omega), half (index + 2) (by omega)]

def superPart : Part :=
  { partno := 1, dev := 1, start := 65536, len := 0xFFFFFFFF * 32768, valid := true, mounted := false,
    devname := str "hd" }

def superOpen : Fs := { Fs.startUp with part := superPart, calls := 3, handles := [1] }

theorem partOpen_super (sblock : Image) :
    partOpen (diskMachine (superDisk sblock)) 2 (str "hd") 1 .startUp = .ok () superOpen := by
  let first : Fs := { Fs.startUp with calls := 1, handles := [1] }
  have sector : ∀ offset fs, readSector (diskMachine (superDisk sblock)) 1 offset fs =
      .ok (fun index => superDisk sblock (offset + index)) { fs with calls := fs.calls + 1 } := fun _ _ => rfl
  have signature : Image.be16 (fun index => superDisk sblock (0 + index)) 0 = 0x4552 := by
    rw [(superDisk_word sblock (by decide)).1]
    decide +kernel
  have size : Image.be16 (fun index => superDisk sblock (0 + index)) 2 = 32768 := by
    rw [(superDisk_word sblock (by decide)).1]
    decide +kernel
  have entry : Image.be16 (fun index => superDisk sblock (1 * 32768 + index)) 0 = 0x504d := by
    rw [(superDisk_word sblock (by decide)).1]
    decide +kernel
  have start : Image.be32 (fun index => superDisk sblock (1 * 32768 + index)) 8 = 2 := by
    rw [(superDisk_word sblock (by decide)).2]
    decide +kernel
  have length : Image.be32 (fun index => superDisk sblock (1 * 32768 + index)) 12 = 0xFFFFFFFF := by
    rw [(superDisk_word sblock (by decide)).2]
    decide +kernel
  have entries : readMacEntries (diskMachine (superDisk sblock)) 1 1 32768 2 1 1 { first with calls := 2 } =
      .ok { start := 65536, len := 0xFFFFFFFF * 32768 } { first with calls := 3 } := by
    unfold readMacEntries
    rw [if_pos (by decide), Prog.bind_run_ok (sector _ _), if_neg (by rw [entry]; decide)]
    dsimp only
    rw [if_pos (by rfl)]
    unfold macExtent
    rw [start, length]
    rfl
  have table : readMacPartition (diskMachine (superDisk sblock)) 2 1 1 first =
      .ok { start := 65536, len := 0xFFFFFFFF * 32768 } { first with calls := 3 } := by
    unfold readMacPartition
    rw [Prog.bind_run_ok (sector _ _), if_neg (by rw [signature]; decide), size]
    exact entries
  have read : readTable (diskMachine (superDisk sblock)) 2 1 1 first =
      .ok { start := 65536, len := 0xFFFFFFFF * 32768 } { first with calls := 3 } := by
    unfold readTable
    rw [Prog.bind_run_ok (Prog.attempt_eq_ok.mpr (.inl ⟨_, rfl, table⟩))]
    rfl
  have disk : diskOpen (diskMachine (superDisk sblock)) (str "hd") .startUp = .ok 1 first := rfl
  change partFind (diskMachine (superDisk sblock)) 2 (str "hd") 1 .startUp = _
  unfold partFind
  rw [Prog.bind_run_ok disk, Prog.bind_run_ok (Prog.onError_run_ok read)]
  rfl

theorem superDisk_superblock (sblock : Image) : Superblock (diskMachine (superDisk sblock)) superPart sblock := by
  intro call index inside
  have start : superPart.start = 65536 := rfl
  rw [(diskMachine_steady (superDisk sblock)).fixed.bytes, start]
  exact (if_pos (by omega)).trans (congrArg sblock (by omega))

/-- Every structure lies inside the partition. -/
theorem readStruct_large (disk : Image) {fs : Fs} (part : fs.part = superPart) {sector byteOffset width : Nat}
    (sectors : sector < 2 ^ 32) (bytes : byteOffset + width < 2 ^ 32) :
    ∃ read after, readStruct (diskMachine disk) sector byteOffset width fs = .ok read after := by
  have steady := diskMachine_steady disk
  have len : fs.part.len = 0xFFFFFFFF * 32768 := by
    rw [part]
    rfl
  rcases partRead_cases steady.fixed fs .blank sector byteOffset width 0 with
    ⟨beyond, -⟩ | ⟨-, calls, run⟩ | ⟨-, short, -⟩
  · rw [len] at beyond
    omega
  · exact ⟨_, _, Prog.bind_run_ok (Prog.scratch_eq_ok.mpr run)⟩
  · exact absurd steady.reliable short

theorem readInode_faults (disk : Image) {data : Ext2Data} {fs : Fs} (part : fs.part = superPart)
    (unsound : ¬Sound data fs.inodeSize) : ext2fsReadInode (diskMachine disk) data 2 fs = .fault := by
  unfold ext2fsReadInode
  by_cases groups : data.inodesPerGroup = 0
  · rw [Prog.arith_neg (by simpa using groups)]
    rfl
  rw [Prog.arith_pos groups, Prog.pure_bind]
  by_cases most : data.log2Bytes < 32
  swap
  · refine Prog.bind_run_fault (Prog.bind_run_fault ?_)
    unfold ext2BlockSize shiftOne
    rw [Prog.arith_neg most]
    rfl
  have size {α : Type} (next : Nat → FsProg α) (fs : Fs) : (ext2BlockSize data >>= next) fs = next data.blockBytes fs :=
    Prog.bind_run_ok (ext2BlockSize_eq_ok.mpr ⟨most, rfl, rfl⟩)
  by_cases least : 9 ≤ data.log2Bytes
  swap
  · refine Prog.bind_run_fault ?_
    unfold ext2fsBlockgroup
    rw [size]
    by_cases descriptors : data.blockBytes / 32 = 0
    · rw [Prog.arith_neg (by simpa using descriptors)]
      rfl
    rw [Prog.arith_pos descriptors, Prog.pure_bind]
    have shift : ¬data.log2Ext2BlockSize < 32 := fun shift => least ((shift_iff most).mp shift)
    refine Prog.bind_run_fault ?_
    unfold shl32
    rw [Prog.arith_neg shift]
    rfl
  have inodes : ¬(fs.inodeSize ≠ 0 ∧ fs.inodeSize ≤ data.blockBytes) := fun inodes =>
    unsound ⟨groups, least, most, inodes⟩
  have blockBytes : 2 ^ 9 ≤ data.blockBytes ∧ data.blockBytes ≤ 2 ^ 31 :=
    ⟨Nat.pow_le_pow_right (by decide) least, Nat.pow_le_pow_right (by decide) (by omega)⟩
  have descriptors : data.blockBytes / 32 ≠ 0 := by omega
  have group : ∃ read after, ext2fsBlockgroup (diskMachine disk) data
      ((2 + (2 ^ 32 - 1)) % 2 ^ 32 / data.inodesPerGroup) fs = .ok read after := by
    unfold ext2fsBlockgroup
    rw [size, Prog.arith_pos descriptors, Prog.pure_bind]
    rw [Prog.bind_run_ok (shl32_eq_ok.mpr ⟨(shift_iff most).mpr least, rfl, rfl⟩)]
    refine readStruct_large disk part (Nat.mod_lt _ (by decide)) ?_
    have rest := Nat.mod_lt ((2 + (2 ^ 32 - 1)) % 2 ^ 32 / data.inodesPerGroup) (Nat.pos_of_ne_zero descriptors)
    omega
  obtain ⟨read, after, run⟩ := group
  have width : after.inodeSize = fs.inodeSize :=
    (blockgroup_near data _ fs after (congrArg Outcome.state? run)).inodeSize
  rw [Prog.bind_run_ok run, size, Prog.view_bind, width]
  by_cases nonzero : fs.inodeSize = 0
  · rw [Prog.arith_neg (by simpa using nonzero)]
    rfl
  have large : data.blockBytes / fs.inodeSize = 0 := by
    refine Nat.div_eq_of_lt (Nat.lt_of_not_le fun fits => inodes ⟨nonzero, fits⟩)
  rw [Prog.arith_pos nonzero, Prog.pure_bind, Prog.arith_neg (not_not_intro large)]
  rfl

theorem fileLen_faults {sblock : Image} (magic : sblock.le16 56 = 0xEF53)
    (unsound : ¬Sound (superData sblock) (superInodeSize sblock)) :
    (FileOp.len (sampleFile 1)).Faults (diskMachine (superDisk sblock)) 2 .startUp := by
  let fresh : Fs := { superOpen with mallocs := 1, dataBlocks := 1 }
  have super : Superblock (diskMachine (superDisk sblock)) superPart sblock := superDisk_superblock sblock
  have mount : ext2fsMount (diskMachine (superDisk sblock)) superOpen = .fault := by
    obtain ⟨image, after, run⟩ : ∃ image after, readStruct (diskMachine (superDisk sblock)) 2 0 204 fresh = .ok image after :=
      readStruct_large _ rfl (by decide) (by decide)
    obtain ⟨part, same⟩ := (readStruct_super super).of_ok (rfl : fresh.part = superPart) run
    have magic : ¬image.le16 56 ≠ 0xEF53 := by
      rw [Image.le16_congr fun index _ upper => same index (by omega), magic]
      exact not_not_intro rfl
    have read : readSuper (diskMachine (superDisk sblock)) fresh = .fault := by
      unfold readSuper
      rw [Prog.bind_run_ok run, if_neg magic, Prog.update_bind]
      refine Prog.bind_run_fault (readInode_faults (superDisk sblock) part fun sound => unsound ?_)
      have size : superInodeSize image = superInodeSize sblock := superInodeSize_congr same
      rw [← size]
      exact sound.congr fun index inside => (same index inside).symm
    have room : malloc (diskMachine (superDisk sblock)) 352 superOpen = .ok () { superOpen with mallocs := 1 } := rfl
    unfold ext2fsMount
    rw [Prog.bind_run_ok room, Prog.update_bind]
    exact Prog.bind_run_fault (Prog.onError_run_fault read)
  change fileLen (diskMachine (superDisk sblock)) 2 (sampleFile 1) .startUp = .fault
  have opened : partOpen (diskMachine (superDisk sblock)) 2 (sampleFile 1).device (sampleFile 1).part .startUp =
      .ok () superOpen := partOpen_super sblock
  rw [fileLen_unmounted rfl, Prog.bind_run_ok opened]
  exact Prog.bind_run_fault mount

/-- No call on a volume with the superblock divides by zero or shifts by 32 bits
or more, if and only if the numbers of the superblock are sound. -/
theorem superblock_faultless_iff (sblock : Image) (magic : sblock.le16 56 = 0xEF53) :
    Faultless sblock ↔ Sound (superData sblock) (superInodeSize sblock) := by
  constructor
  · intro faultless
    by_contra unsound
    refine faultless _ 2 .startUp (.len (sampleFile 1)) .startUp (fun opened run => ?_) (fileLen_faults magic unsound)
    have same := (partOpen_super sblock).symm.trans run
    cases same
    exact superDisk_superblock sblock
  · intro sound machine fuel fs op history super
    exact op.no_fault sound history.unmounted super


/-- A superblock with so many inodes in a group. -/
def superGroups (inodes : UInt8) : Image := .ofRuns [(40, [inodes]), (56, [0x53, 0xEF])]

theorem superblock_faultless_sample : Faultless (superGroups 8) :=
  (superblock_faultless_iff (superGroups 8) (by decide +kernel)).mpr (by decide +kernel)

/-- A superblock with no inodes in a group is mounted, and divided by. -/
theorem superblock_faults : ¬∀ sblock : Image, sblock.le16 56 = 0xEF53 → Faultless sblock := by
  intro faultless
  have magic : (superGroups 0).le16 56 = 0xEF53 := by decide +kernel
  have unsound : ¬Sound (superData (superGroups 0)) (superInodeSize (superGroups 0)) := by decide +kernel
  refine faultless _ magic _ 2 .startUp (.len (sampleFile 1)) .startUp (fun opened run => ?_)
    (fileLen_faults magic unsound)
  have same := (partOpen_super (superGroups 0)).symm.trans run
  cases same
  exact superDisk_superblock _

end Faults

end IQuik.Ext2
