import IQuik.Ext2.Directories
import IQuik.Ext2.Tree

namespace IQuik.Ext2

open IQuik.Data IQuik.Program IQuik.Storage

/-! # A directory tree on a volume -/

/-- The node of an inode that has been read. -/
def treeNode (data : Ext2Data) (inodes : Nat → Inode) (ino : Nat) : Node :=
  { data, inode := inodes ino, ino, inodeRead := true }

/-- A well-formed directory: the entries tile it, all are in use, their names differ,
what they say of types is true, and each header can be read. -/
structure HoldsDirectory (machine : Machine) (image : Nat → Image) (start : Fs) (data : Ext2Data)
    (inodes : Nat → Inode) (tree : Tree) (ino : Nat) (entries : List Entry) : Prop where
  readable : Readable image start.part (treeNode data inodes ino)
  tiles : Tiles (dirImage image start.part (treeNode data inodes ino)) (inodes ino).size 0 entries
  used : ∀ entry ∈ entries, entry.inode ≠ 0
  distinct : (entries.map Entry.filename).Nodup
  known : ∀ entry ∈ entries, (tree entry.inode).isSome
  typed : ∀ entry ∈ entries, EntryType machine data start entry (tree.type entry.inode)
  headers : ∀ place ∈ placed 0 entries, place.2.filename = [] →
    HeaderFits image start.part (treeNode data inodes ino) place.1

/-- The volume holds the tree, and all of it can be read. -/
structure HoldsTree (machine : Machine) (image : Nat → Image) (start : Fs) (data : Ext2Data)
    (inodes : Nat → Inode) (tree : Tree) : Prop where
  read : ∀ ino object, tree ino = some object →
    ∃ after, ext2fsReadInode machine data ino start = .ok (inodes ino) after
  root : ∃ listed, tree Tree.root = some (.directory listed)
  rootInode : data.rootInode = inodes Tree.root
  directories : ∀ ino listed, tree ino = some (.directory listed) →
    ∃ entries, HoldsDirectory machine image start data inodes tree ino entries ∧
      listed = entries.map fun entry => (entry.filename, entry.inode)
  symlinks : ∀ ino target, tree ino = some (.symlink target) →
    target ≠ [] ∧ ∃ after, ext2fsReadSymlink machine (treeNode data inodes ino) start = .ok target after

/-- A node of an inode number, with the inode or without. -/
structure Stands (data : Ext2Data) (inodes : Nat → Inode) (ino : Nat) (node : Node) : Prop where
  volume : node.data = data
  number : node.ino = ino
  inode : node.inodeRead = true → node.inode = inodes ino

/-- A state on the way of a lookup that has followed `nest` symlinks. -/
structure Ready (image : Nat → Image) (start : Fs) (data : Ext2Data) (nest : Nat) (fs : Fs) : Prop where
  later : Later image start fs
  root : fs.root = some data
  nest : fs.symlinknest = nest

variable {machine : Machine} {image : Nat → Image} {start fs : Fs} {data : Ext2Data} {inodes : Nat → Inode}
  {tree : Tree} {ino nest : Nat} {node : Node}

section Nodes

variable {part : Part} {other : Node}

/-- What can be read does not depend on the number of the node. -/
theorem Readable.of_inode (readable : Readable image part node) (data : other.data = node.data)
    (inode : other.inode = node.inode) : Readable image part other := by
  obtain ⟨_, _, number, read⟩ := other
  obtain rfl : _ = node.data := data
  obtain rfl : _ = node.inode := inode
  refine ⟨readable.sized, readable.bound, fun i upper => ?_⟩
  have block := readable.blocks i upper
  exact ⟨⟨block.plain.block, block.plain.single, block.plain.double⟩, block.reach, block.block, block.single,
    block.double⟩

theorem dirImage_of_inode (data : other.data = node.data) (inode : other.inode = node.inode) :
    dirImage image part other = dirImage image part node := by
  obtain ⟨_, _, number, read⟩ := other
  obtain rfl : _ = node.data := data
  obtain rfl : _ = node.inode := inode
  rfl

theorem FitsLocal.of_inode {room pos len : Nat} (data : other.data = node.data) (inode : other.inode = node.inode) :
    FitsLocal image part other room pos len ↔ FitsLocal image part node room pos len := by
  obtain ⟨_, _, number, read⟩ := other
  obtain rfl : _ = node.data := data
  obtain rfl : _ = node.inode := inode
  rfl

theorem placed_entry {fpos : Nat} {entries : List Entry} {place : Nat × Entry} (member : place ∈ placed fpos entries) :
    place.2 ∈ entries := by
  induction entries generalizing fpos with
  | nil => cases member
  | cons entry rest ih =>
      obtain rfl | behind := List.mem_cons.mp member
      · exact List.mem_cons_self
      · exact List.mem_cons_of_mem _ (ih behind)

/-- Only entries without a name have a header that could end in a hole. -/
theorem headers_of_named {entries : List Entry} (named : ∀ entry ∈ entries, entry.filename ≠ []) :
    ∀ place ∈ placed 0 entries, place.2.filename = [] → HeaderFits image part node place.1 :=
  fun _ member unnamed => absurd unnamed (named _ (placed_entry member))

theorem placed_passed (name : Str) (fpos : Nat) (entries : List Entry) :
    placed fpos (passed name entries) ⊆ placed fpos entries := by
  induction entries generalizing fpos with
  | nil => exact List.Subset.refl _
  | cons entry rest ih =>
      cases live : isLive name entry with
      | true =>
          rw [passed, List.takeWhile_cons_of_neg (by simp [live])]
          exact List.nil_subset _
      | false =>
          rw [passed, List.takeWhile_cons_of_pos (by simp [live])]
          exact List.cons_subset_cons _ (ih _)

theorem EntryType.unique {entry : Entry} {first second : FileType}
    (one : EntryType machine data start entry first) (two : EntryType machine data start entry second) :
    first = second := by
  unfold EntryType at one two
  split at one
  · rw [if_pos ‹_›] at two
    exact one.trans two.symm
  · rw [if_neg ‹_›] at two
    obtain ⟨inode, after, read, rfl⟩ := one
    obtain ⟨inode', after', read', rfl⟩ := two
    rw [read] at read'
    cases read'
    rfl

/-- Every entry has at least the 8 bytes in front of its name. -/
theorem Tiles.length_le {content : Image} {size fpos : Nat} {entries : List Entry}
    (tiles : Tiles content size fpos entries) : fpos + 8 * entries.length ≤ size := by
  induction entries generalizing fpos with
  | nil => exact Nat.le_of_eq tiles
  | cons entry rest ih =>
      have behind := ih tiles.2
      have room := tiles.1.room
      rw [List.length_cons]
      omega

/-- The entry in use under a name is the one that the tree has. -/
theorem liveEntry_lookup {entries : List Entry} (used : ∀ entry ∈ entries, entry.inode ≠ 0) (name : Str) :
    (entries.map fun entry => (entry.filename, entry.inode)).lookup name =
      (liveEntry name entries).map Entry.inode := by
  induction entries with
  | nil => rfl
  | cons entry rest ih =>
      have some' := used entry List.mem_cons_self
      have behind := ih fun other member => used other (List.mem_cons_of_mem _ member)
      rw [List.map_cons, List.lookup_cons, liveEntry, List.find?_cons]
      by_cases same : entry.filename = name
      · have live : isLive name entry = true := decide_eq_true ⟨some', same⟩
        rw [live, same, beq_self_eq_true]
        rfl
      · have dead : isLive name entry = false := decide_eq_false fun both => same both.2
        rw [dead, beq_eq_false_iff_ne.mpr (Ne.symm same)]
        exact behind

end Nodes

section States

theorem Later.trans {middle : Fs} (first : Later image start middle) (second : Later image middle fs) :
    Later image start fs where
  openLeft := rfl
  openRight := second.openRight.trans first.openRight
  warmLeft := first.warmLeft
  warmRight := second.warmRight
  keep := by
    have one : start.inodeSize = middle.inodeSize := first.keep
    exact one.trans second.keep

/-- The number of the symlinks that were followed makes no difference to a read. -/
theorem Later.nested (later : Later image start fs) (nest : Nat) : Later image start { fs with symlinknest := nest } where
  openLeft := rfl
  openRight := later.openRight
  warmLeft := later.warmLeft
  warmRight := ⟨.refl _, later.warmRight.indir1, later.warmRight.indir2⟩
  keep := later.keep

variable {α : Type} {holds : α → Prop} {program : FsProg α}

/-- A program that does the same in two runs comes to a later state. -/
theorem Repeats.exits (repeats : Repeats image start.part EqualSizes False holds program) (near : KeepsNear program) :
    Prog.Exits True (Later image start) program (fun _ after => Later image start after) fun _ _ => True := by
  intro fs later
  cases run : program fs with
  | ok value after =>
      rw [← later.openRight] at repeats
      obtain ⟨final, same, goes, -⟩ := repeats.later_ok near (.refl later.warmRight) run
      rw [run] at same
      cases same
      exact later.trans goes
  | error code after => trivial
  | fault => trivial
  | undefined => trivial
  | unfinished => trivial

/-- What a program does at the start of a lookup it does on the way. -/
theorem Ready.run_ok (ready : Ready image start data nest fs)
    (repeats : Repeats image start.part EqualSizes False holds program) (near : KeepsNear program)
    {value : α} {first : Fs} (returned : program start = .ok value first) :
    ∃ after, program fs = .ok value after ∧ Ready image start data nest after := by
  obtain ⟨after, run, later, -⟩ := repeats.later_ok near ready.later returned
  have kept := near fs after (by rw [run]; rfl)
  exact ⟨after, run, later, kept.root.trans ready.root, kept.symlinknest.trans ready.nest⟩

end States

section Scans

/-- A node as a directory entry gives it: with no inode, or with the one that was read. -/
def EntryNode (machine : Machine) (image : Nat → Image) (start : Fs) (data : Ext2Data) (node : Node) : Prop :=
  node.data = data ∧ (node.inodeRead = true → ∃ before after, Later image start before ∧
    ext2fsReadInode machine data node.ino before = .ok node.inode after)

variable (fixed : machine.Fixed image) (reliable : machine.Reliable)
include fixed reliable

theorem readInode_exits (data : Ext2Data) (ino : Nat) :
    Prog.Exits True (Later image start) (ext2fsReadInode machine data ino)
      (fun inode after => Later image start after ∧ ∃ before, Later image start before ∧
        ext2fsReadInode machine data ino before = .ok inode after) fun _ _ => True := by
  have repeats : Repeats image start.part EqualSizes False (fun _ => True) (ext2fsReadInode machine data ino) :=
    readInode_repeats fixed (.inr reliable) EqualSizes.stable EqualSizes.sizes data ino
  have exits := repeats.exits (readInode_near data ino)
  intro fs later
  have known := exits fs later
  cases run : ext2fsReadInode machine data ino fs with
  | ok inode after =>
      rw [run] at known
      exact ⟨known, fs, later, run⟩
  | error code after => trivial
  | fault => trivial
  | undefined => trivial
  | unfinished => trivial

theorem direntNode_exits (data : Ext2Data) (ino : Nat) (filetype : UInt8) :
    Prog.Exits True (Later image start) (direntNode machine data ino filetype)
      (fun entry after => Later image start after ∧ EntryNode machine image start data entry.1) fun _ _ => True := by
  have allocates : Repeats image start.part EqualSizes False (fun _ => True) (malloc machine 140) :=
    malloc_repeats (.inr reliable) EqualSizes.stable 140
  unfold direntNode
  refine (allocates.exits (malloc_near 140)).bind fun _ => .ite (fun _ => ?_) fun _ => ?_
  · exact .pure fun fs later => ⟨later, rfl, fun read => absurd read Bool.false_ne_true⟩
  · refine (readInode_exits fixed reliable data ino).bind fun inode => .pure ?_
    rintro fs ⟨later, before, earlier, run⟩
    exact ⟨later, rfl, fun _ => ⟨before, fs, earlier, run⟩⟩

theorem direntAt_exits {dir : Node} (usable : OfUsable False dir) (fpos : Nat) :
    Prog.Exits True (Later image start) (direntAt machine dir fpos)
      (fun entry after => Later image start after ∧
        ∀ dirent, entry.2 = some dirent → EntryNode machine image start dir.data dirent.node) fun _ _ => True := by
  have reads (room pos len : Nat) : Prog.Exits True (Later image start) (readLocal machine room dir pos len)
      (fun _ after => Later image start after) fun _ _ => True := by
    have repeats : Repeats image start.part EqualSizes False (fun _ => True) (readLocal machine room dir pos len) :=
      readLocal_repeats fixed (.inr reliable) EqualSizes.stable usable room pos len
    exact repeats.exits (readLocal_near room dir pos len)
  have known {α : Type} (value : Option α) : Prog.Exits True (Later image start) (Prog.defined value : FsProg α)
      (fun _ after => Later image start after) fun _ _ => True := .defined fun _ _ _ later => later
  unfold direntAt
  refine (reads 8 fpos 8).bind fun dirent => (known _).bind fun namelen => .ite (fun _ => ?_) fun _ => ?_
  · refine (reads _ _ _).bind fun filename => (known _).bind fun ino => (known _).bind fun filetype => ?_
    refine (direntNode_exits fixed reliable dir.data ino filetype).bind fun entry => ?_
    refine Prog.Exits.bind (.defined fun _ _ _ both => both) fun direntlen => .pure ?_
    rintro fs ⟨later, found⟩
    refine ⟨later, fun dirent same => ?_⟩
    cases same
    exact found
  · refine (known _).bind fun direntlen => .pure fun fs later => ⟨later, fun dirent same => ?_⟩
    cases same

theorem iterateDirFrom_exits {dir : Node} (usable : OfUsable False dir) (name : Str) (fuel fpos : Nat) :
    Prog.Exits True (Later image start) (iterateDirFrom machine dir (some name) fuel fpos)
      (fun found _ => EntryNode machine image start dir.data found.1) fun _ _ => True := by
  induction fuel generalizing fpos with
  | zero => exact .unfinished
  | succ fuel ih =>
      unfold iterateDirFrom
      refine .ite (fun _ => ?_) fun _ => .fail fun _ _ => trivial
      refine (direntAt_exits fixed reliable usable fpos).bind fun read => ?_
      obtain ⟨direntlen, entry⟩ := read
      have next : Prog.Exits True (fun fs => Later image start fs ∧
          ∀ dirent, entry = some dirent → EntryNode machine image start dir.data dirent.node)
          (iterateDirFrom machine dir (some name) fuel ((fpos + direntlen) % 2 ^ 32))
          (fun found _ => EntryNode machine image start dir.data found.1) fun _ _ => True :=
        (ih _).conseq (fun _ known => known.1) (fun _ _ known => known) fun _ _ _ => trivial
      cases entry with
      | none => exact next
      | some entry =>
          refine Prog.Exits.bind (.defined fun _ _ _ both => both) fun matching => ?_
          exact .ite (fun _ => .pure fun _ known => known.2 entry rfl) fun _ => next

/-- What a lookup in a directory finds is a node of an entry. -/
theorem iterateDir_exits {dir : Node} (usable : OfUsable False dir) (fuel : Nat) (name : Str) :
    Prog.Exits True (Later image start) (ext2fsIterateDir machine fuel dir (some name))
      (fun found _ => EntryNode machine image start dir.data found.1) fun _ _ => True := by
  have repeats : Repeats image start.part EqualSizes False (fun _ => True) (nodeInode machine dir) :=
    nodeInode_repeats fixed (.inr reliable) EqualSizes.stable EqualSizes.sizes dir
  unfold ext2fsIterateDir
  refine (repeats.exits (nodeInode_near dir)).bind fun inode => ?_
  have usable' : OfUsable False { dir with inode } := usable
  exact iterateDirFrom_exits fixed reliable usable' name fuel 0

end Scans

/-! ## Lookups and targets -/

theorem Tree.target_some {target : Str} (symlink : tree.target ino = some target) :
    tree ino = some (.symlink target) := by
  unfold Tree.target at symlink
  split at symlink
  · cases symlink
    assumption
  · cases symlink

section Held

variable (holds : HoldsTree machine image start data inodes tree)
include holds

theorem HoldsTree.usable (stands : Stands data inodes ino node) : OfUsable False node := by
  obtain ⟨listed, root⟩ := holds.root
  obtain ⟨entries, directory, -⟩ := holds.directories _ _ root
  have sized : BlockSized data := directory.readable.sized
  rw [OfUsable, stands.volume]
  exact .inr sized.unmarked

/-- The root directory stands for its own number. -/
theorem HoldsTree.diropen : Stands data inodes Tree.root data.diropen :=
  ⟨rfl, rfl, fun _ => holds.rootInode⟩

variable (fixed : machine.Fixed image) (reliable : machine.Reliable) (warm : Warm image start start)
include fixed reliable warm

theorem HoldsTree.inode_run (stands : Stands data inodes ino node) {object : Object} (known : tree ino = some object) :
    ∃ after, nodeInode machine node start = .ok (inodes ino) after ∧ Later image start after := by
  have repeats : Repeats image start.part EqualSizes False (fun _ => True) (nodeInode machine node) :=
    nodeInode_repeats fixed (.inr reliable) EqualSizes.stable EqualSizes.sizes node
  have run : ∃ after, nodeInode machine node start = .ok (inodes ino) after := by
    unfold nodeInode
    by_cases read : node.inodeRead = true
    · rw [if_pos read, stands.inode read]
      exact ⟨start, rfl⟩
    · rw [if_neg read, stands.volume, stands.number]
      exact holds.read ino object known
  obtain ⟨after, run⟩ := run
  exact ⟨after, run, (repeats.exits (nodeInode_near node)).of_ok (.refl warm) run⟩

omit warm in
/-- What an entry of a node's number stands for. -/
theorem HoldsTree.stands {found : Node} (entry : EntryNode machine image start data found) {object : Object}
    (known : tree found.ino = some object) : Stands data inodes found.ino found := by
  obtain ⟨volume, inode⟩ := entry
  refine ⟨volume, rfl, fun read => ?_⟩
  obtain ⟨before, after, later, run⟩ := inode read
  obtain ⟨first, stored⟩ := holds.read _ _ known
  have repeats : Repeats image start.part EqualSizes False (fun _ => True) (ext2fsReadInode machine data found.ino) :=
    readInode_repeats fixed (.inr reliable) EqualSizes.stable EqualSizes.sizes _ _
  obtain ⟨final, same, -⟩ := repeats.later_ok (readInode_near _ _) later stored
  rw [run] at same
  exact (Outcome.ok.inj same).1

/-- A name in a directory of the tree is looked up at the start. -/
theorem HoldsTree.lookup_start (stands : Stands data inodes ino node) {listed : List (Str × Nat)}
    (directory : tree ino = some (.directory listed)) {name : Str} (some' : name ≠ []) {fuel : Nat}
    (enough : listed.length < fuel) :
    (∀ child, listed.lookup name = some child → ∃ found after,
      ext2fsIterateDir machine fuel node (some name) start = .ok (found, tree.type child) after ∧
        Stands data inodes child found) ∧
    (listed.lookup name = none → ∃ after,
      ext2fsIterateDir machine fuel node (some name) start = .error .fsNotFound after) := by
  obtain ⟨entries, held, rfl⟩ := holds.directories _ _ directory
  obtain ⟨middle, read, -⟩ := holds.inode_run fixed reliable warm stands directory
  have readable : Readable image start.part { node with inode := inodes ino } :=
    held.readable.of_inode stands.volume rfl
  have tiles : Tiles (dirImage image start.part { node with inode := inodes ino }) (inodes ino).size 0 entries := by
    have same : dirImage image start.part { node with inode := inodes ino } =
        dirImage image start.part (treeNode data inodes ino) := dirImage_of_inode stands.volume rfl
    rw [same]
    exact held.tiles
  have passes (entry : Entry) (member : entry ∈ passed name entries) : entry ∈ entries :=
    (List.takeWhile_sublist _).subset member
  have finds (entry : Entry) (live : liveEntry name entries = some entry) : entry ∈ entries :=
    List.mem_of_find?_eq_some live
  have typed : ∀ entry ∈ entries, EntryType machine node.data start entry (tree.type entry.inode) := by
    rw [stands.volume]
    exact held.typed
  have headers (place : Nat × Entry) (member : place ∈ placed 0 entries) (unnamed : place.2.filename = []) :
      HeaderFits image start.part { node with inode := inodes ino } place.1 := by
    have same : FitsLocal image start.part { node with inode := inodes ino } 8 place.1 8 ↔
        FitsLocal image start.part (treeNode data inodes ino) 8 place.1 8 := FitsLocal.of_inode stands.volume rfl
    exact same.mpr (held.headers place member unnamed)
  have right := (iterateDir_live_iff fixed reliable warm read readable tiles
    (by rwa [List.length_map] at enough)).mpr
      ⟨fun entry member unused => absurd unused (held.used entry (passes entry member)),
        fun entry member _ => ⟨_, typed entry (passes entry member)⟩,
        fun place member => headers place (placed_passed name 0 entries member),
        fun entry live => ⟨some', _, typed entry (finds entry live)⟩⟩
  rw [liveEntry_lookup held.used]
  refine ⟨fun child found => ?_, fun missing => right.missing (Option.map_eq_none_iff.mp missing)⟩
  obtain ⟨entry, live, rfl⟩ := Option.map_eq_some_iff.mp found
  obtain ⟨found, type, after, run, number, stated⟩ := right.found entry live
  obtain rfl : type = tree.type entry.inode := stated.unique (typed entry (finds entry live))
  have origin : EntryNode machine image start node.data found :=
    (iterateDir_exits fixed reliable (holds.usable stands) fuel name).of_ok (.refl warm) run
  obtain ⟨object, known⟩ := Option.isSome_iff_exists.mp (held.known entry (finds entry live))
  rw [stands.volume] at origin
  refine ⟨found, after, run, ?_⟩
  rw [← number] at known ⊢
  exact holds.stands fixed reliable origin known

theorem HoldsTree.lookup_some (stands : Stands data inodes ino node) {listed : List (Str × Nat)}
    (directory : tree ino = some (.directory listed)) {name : Str} (some' : name ≠ []) {fuel child : Nat}
    (enough : listed.length < fuel) (found : tree.lookup ino name = some child)
    (ready : Ready image start data nest fs) :
    ∃ entry after, ext2fsIterateDir machine fuel node (some name) fs = .ok (entry, tree.type child) after ∧
      Stands data inodes child entry ∧ Ready image start data nest after := by
  have listing : listed.lookup name = some child := by
    unfold Tree.lookup at found
    rwa [directory] at found
  obtain ⟨entry, first, run, stands'⟩ :=
    (holds.lookup_start fixed reliable warm stands directory some' enough).1 child listing
  have repeats : Repeats image start.part EqualSizes False (fun entry => OfUsable False entry.1)
      (ext2fsIterateDir machine fuel node (some name)) :=
    iterateDir_repeats fixed (.inr reliable) EqualSizes.stable EqualSizes.sizes (holds.usable stands) fuel _
  obtain ⟨after, again, ready⟩ := ready.run_ok repeats (iterateDir_near _ _ _) run
  exact ⟨entry, after, again, stands', ready⟩

theorem HoldsTree.lookup_none (stands : Stands data inodes ino node) {listed : List (Str × Nat)}
    (directory : tree ino = some (.directory listed)) {name : Str} (some' : name ≠ []) {fuel : Nat}
    (enough : listed.length < fuel) (missing : tree.lookup ino name = none)
    (ready : Ready image start data nest fs) :
    ∃ code after, ext2fsIterateDir machine fuel node (some name) fs = .error code after := by
  have listing : listed.lookup name = none := by
    unfold Tree.lookup at missing
    rwa [directory] at missing
  obtain ⟨first, run⟩ := (holds.lookup_start fixed reliable warm stands directory some' enough).2 listing
  have repeats : Repeats image start.part EqualSizes False (fun entry => OfUsable False entry.1)
      (ext2fsIterateDir machine fuel node (some name)) :=
    iterateDir_repeats fixed (.inr reliable) EqualSizes.stable EqualSizes.sizes (holds.usable stands) fuel _
  obtain ⟨after, again⟩ := repeats.later_error ready.later run
  exact ⟨_, after, again⟩

/-- The target of a symlink of the tree is read. -/
theorem HoldsTree.target (stands : Stands data inodes ino node) {target : Str} (symlink : tree.target ino = some target)
    (ready : Ready image start data nest fs) :
    ∃ after, ext2fsReadSymlink machine node fs = .ok target after ∧ Ready image start data nest after := by
  have known : tree ino = some (.symlink target) := Tree.target_some symlink
  have repeats {other : Node} (usable : OfUsable False other) : Repeats image start.part EqualSizes False
      (fun _ => True) (ext2fsReadSymlink machine other) :=
    readSymlink_repeats fixed (.inr reliable) EqualSizes.stable EqualSizes.sizes usable
  obtain ⟨middle, read, later⟩ := holds.inode_run fixed reliable warm stands known
  obtain ⟨-, first, stored⟩ := holds.symlinks ino target known
  have canonical : Stands data inodes ino (treeNode data inodes ino) := ⟨rfl, rfl, fun _ => rfl⟩
  obtain ⟨after, run, -⟩ := (repeats (holds.usable canonical)).later_ok (readSymlink_near _) later stored
  have same : ext2fsReadSymlink machine node start = ext2fsReadSymlink machine (treeNode data inodes ino) middle := by
    have again : nodeInode machine (treeNode data inodes ino) middle = .ok (inodes ino) middle := rfl
    unfold ext2fsReadSymlink
    rw [Prog.bind_run_ok read, Prog.bind_run_ok again]
    obtain ⟨_, _, number, flag⟩ := node
    obtain rfl : _ = data := stands.volume
    rfl
  exact ready.run_ok (repeats (holds.usable stands)) (readSymlink_near node) (same.trans run)

end Held

end IQuik.Ext2
