import IQuik.Ext2.Paths
import IQuik.Ext2.Walk

namespace IQuik.Ext2

open IQuik.Data IQuik.Program IQuik.Storage

/-! # Two runs of the file code

The file code touches the world in three places: it reads the open partition, it
looks block numbers up in the caches, and it asks for memory. What two runs of it
do alike follows from what they do alike there, whatever machines they run on and
whatever is left of their states.
-/

/-- What a relation says does not depend on the caches and the numbers of the
calls. -/
def Stable (keep : Fs → Fs → Prop) : Prop :=
  ∀ left left' right right', Near left left' → Near right right' → keep left right →
    keep left' right'

/-- The two runs have inodes of one size. -/
def SameSizes (keep : Fs → Fs → Prop) : Prop :=
  ∀ left right, keep left right → left.inodeSize = right.inodeSize

/-- Neither the partition nor a cache nor the number of a call has changed. -/
structure SameWorld (before after : Fs) : Prop where
  part : after.part = before.part
  indir1 : after.indir1 = before.indir1
  indir2 : after.indir2 = before.indir2
  calls : after.calls = before.calls
  mallocs : after.mallocs = before.mallocs

/-- The two runs return the same value, in states related as before, or fail alike. -/
abbrev RunsAlike {σ τ α : Type} (shortLeft shortRight : Prop) (related : σ → τ → Prop) (holds : α → Prop)
    (left : Prog QuikErr σ α) (right : Prog QuikErr τ α) : Prop :=
  Prog.Agrees shortLeft shortRight related related related holds left right

/-- What two machines have to do alike for states that `joined` relates. It says what
the two states have in common of the world, next to `keep` for the rest of them. -/
structure Twins (left right : Machine) (shortLeft shortRight : Prop) (usable : Ext2Data → Prop)
    (joined : (Fs → Fs → Prop) → Fs → Fs → Prop) : Prop where
  keeps : ∀ {keep before after}, joined keep before after → keep before after
  change : ∀ {keep keep' : Fs → Fs → Prop} {before before' after after' : Fs}, joined keep before after →
    SameWorld before before' → SameWorld after after' → keep' before' after' → joined keep' before' after'
  mallocs : ∀ {keep}, Stable keep → ∀ size,
    RunsAlike shortLeft shortRight (joined keep) (fun _ => True) (malloc left size) (malloc right size)
  reads : ∀ {keep}, Stable keep → ∀ sector byteOffset byteLen place,
    RunsAlike shortLeft shortRight (Prog.Beside (ρ := Buffer) (joined keep)) (fun _ => True)
      (partRead left sector byteOffset byteLen place) (partRead right sector byteOffset byteLen place)
  blocks : ∀ {keep}, Stable keep → ∀ node : Node, usable node.data → ∀ fileblock,
    RunsAlike shortLeft shortRight (joined keep) (fun _ => True) (ext2fsReadBlock left node fileblock)
      (ext2fsReadBlock right node fileblock)

section Reference

variable {shortLeft shortRight : Prop} {related : Fs → Fs → Prop} {worldLeft worldRight : Fs → Fs → Prop}
  (start : ∀ {left right}, related left right → worldLeft left left ∧ worldRight right right)
  (finish : ∀ {left right left' right'}, related left right → worldLeft left left' → worldRight right right' →
    related left' right')
include start finish

/-- Two runs that do what a program without a state does are alike. -/
theorem runsAlike_of_agrees {α : Type} {holds : α → Prop} {left right : FsProg α} (reference : Prog QuikErr Unit α)
    (agree : ∀ {before after}, related before after →
      RunsAlike shortLeft False (fun fs (_ : Unit) => worldLeft before fs) holds left reference ∧
        RunsAlike shortRight False (fun fs (_ : Unit) => worldRight after fs) holds right reference) :
    RunsAlike shortLeft shortRight related holds left right := by
  intro before after states
  obtain ⟨first, second⟩ := agree states
  have both := Prog.Agrees.through (fun before' after' => before' = before ∧ after' = after) related related
    first second (fun _ _ same => ⟨(), same.1 ▸ (start states).1, same.2 ▸ (start states).2⟩)
    (fun _ _ _ => finish states) fun _ _ _ => finish states
  exact both before after ⟨rfl, rfl⟩

theorem fillsAlike_of_agrees {left right : FillProg Unit} (reference : WalkProg Unit)
    (agree : ∀ {before after}, related before after →
      RunsAlike shortLeft False (Prog.Beside (ρ := Buffer) fun fs (_ : Unit) => worldLeft before fs) (fun _ => True)
          left reference ∧
        RunsAlike shortRight False (Prog.Beside (ρ := Buffer) fun fs (_ : Unit) => worldRight after fs)
          (fun _ => True) right reference) :
    RunsAlike shortLeft shortRight (Prog.Beside (ρ := Buffer) related) (fun _ => True) left right := by
  rintro ⟨before, buffer⟩ ⟨after, _⟩ ⟨states, same⟩
  cases same
  obtain ⟨first, second⟩ := agree states
  have both := Prog.Agrees.through
    (fun before' after' => before' = (before, buffer) ∧ after' = (after, buffer)) (Prog.Beside related)
    (Prog.Beside related) first second
    (fun _ _ same => ⟨((), buffer), by rw [same.1]; exact ⟨(start states).1, rfl⟩,
      by rw [same.2]; exact ⟨(start states).2, rfl⟩⟩)
    (fun _ _ _ left right => ⟨finish states left.1 right.1, left.2.trans right.2.symm⟩)
    fun _ _ _ left right => ⟨finish states left.1 right.1, left.2.trans right.2.symm⟩
  exact both _ _ ⟨rfl, rfl⟩

end Reference

/-- A volume is mounted, the same in both runs; `files` relates `ext2fs_file`. -/
structure Rooted (usable : Ext2Data → Prop) (files : Option Node → Option Node → Prop) (left right : Fs) :
    Prop where
  inodeSize : left.inodeSize = right.inodeSize
  root : left.root = right.root
  usable : ∀ data, left.root = some data → usable data
  files : files left.file right.file

/-- What a walk over the files reads of the globals. -/
structure Walking (usable : Ext2Data → Prop) (files : Option Node → Option Node → Prop) (left right : Fs) :
    Prop extends Rooted usable files left right where
  symlinknest : left.symlinknest = right.symlinknest

/-- Both runs have the same file open, of a usable volume. -/
def SameFile (usable : Ext2Data → Prop) (left right : Option Node) : Prop :=
  left = right ∧ ∀ node, left = some node → usable node.data

theorem stable_true : Stable fun _ _ => True := fun _ _ _ _ _ _ _ => trivial

theorem stable_inodeSize : Stable fun left right => left.inodeSize = right.inodeSize := by
  rintro left left' right right' ⟨_, _, _, _, rfl⟩ ⟨_, _, _, _, rfl⟩ same
  exact same

theorem same_related {σ τ : Type} {related : σ → τ → Prop} (before : σ) (after : τ) (states : related before after) :
    related before after := states

section Relations

variable {usable : Ext2Data → Prop} {files : Option Node → Option Node → Prop}

theorem Rooted.stable : Stable (Rooted usable files) := by
  rintro left left' right right' ⟨_, _, _, _, rfl⟩ ⟨_, _, _, _, rfl⟩ rooted
  exact ⟨rooted.inodeSize, rooted.root, rooted.usable, rooted.files⟩

theorem Walking.stable : Stable (Walking usable files) := by
  rintro left left' right right' ⟨_, _, _, _, rfl⟩ ⟨_, _, _, _, rfl⟩ walking
  exact ⟨⟨walking.inodeSize, walking.root, walking.usable, walking.files⟩, walking.symlinknest⟩

theorem Walking.sizes : SameSizes (Walking usable files) := fun _ _ walking => walking.inodeSize

end Relations

namespace Twins

variable {left right : Machine} {shortLeft shortRight : Prop} {usable : Ext2Data → Prop}
  {joined : (Fs → Fs → Prop) → Fs → Fs → Prop} {keep : Fs → Fs → Prop}

section Reading

variable (twins : Twins left right shortLeft shortRight usable joined) (stable : Stable keep)
include twins stable

theorem readStruct (sector byteOffset width : Nat) :
    RunsAlike shortLeft shortRight (joined keep) (fun _ => True) (readStruct left sector byteOffset width)
      (Ext2.readStruct right sector byteOffset width) :=
  .bind (.scratch (twins.reads stable sector byteOffset width 0)) fun _ _ => .pure trivial

theorem blockgroup (data : Ext2Data) (group : Nat) :
    RunsAlike shortLeft shortRight (joined keep) (fun _ => True) (ext2fsBlockgroup left data group)
      (ext2fsBlockgroup right data group) := by
  unfold ext2fsBlockgroup
  refine .bind (ext2BlockSize_agrees data) fun blksz _ => ?_
  refine .bind (.arith _) fun _ _ => ?_
  exact .bind (shl32_agrees _ _) fun sector _ => twins.readStruct stable _ _ _

theorem readInode (sizes : SameSizes keep) (data : Ext2Data) (ino : Nat) :
    RunsAlike shortLeft shortRight (joined keep) (fun _ => True) (ext2fsReadInode left data ino)
      (ext2fsReadInode right data ino) := by
  unfold ext2fsReadInode
  refine .bind (.arith _) fun _ _ => ?_
  refine .bind (twins.blockgroup stable _ _) fun blkgrp _ => ?_
  refine .bind (ext2BlockSize_agrees data) fun blksz _ => ?_
  refine .bindVia _ (fun _ => True) (.view fun _ _ states => ⟨sizes _ _ (twins.keeps states), trivial⟩)
    fun inodeSize _ => ?_
  refine .bind (.arith _) fun _ _ => ?_
  refine .bind (.arith _) fun _ _ => ?_
  refine .bind (shl32_agrees _ _) fun sector _ => ?_
  exact .bind (twins.readStruct stable _ _ _) fun _ _ => .pure trivial

theorem readFileBlock (range : Range) (volume : usable range.node.data) (i place : Nat) :
    RunsAlike shortLeft shortRight (Prog.Beside (ρ := Buffer) (joined keep)) (fun _ => True)
      (readFileBlock left range i place) (Ext2.readFileBlock right range i place) := by
  have sector : RunsAlike shortLeft shortRight (joined keep) (fun _ => True) (fileSector left range.node i)
      (fileSector right range.node i) :=
    .bind (twins.blocks stable range.node volume i) fun blknr _ =>
      (shl32_agrees blknr _).conseq same_related same_related same_related fun _ _ => trivial
  refine .bind (.onFirst sector) fun sector _ => ?_
  refine .ite (fun _ => twins.reads stable _ _ _ _) fun _ => ?_
  exact .update fun _ _ states => ⟨states.1, by rw [states.2]⟩

theorem readFile {node : Node} (volume : usable node.data) (pos len : Nat) :
    RunsAlike shortLeft shortRight (Prog.Beside (ρ := Buffer) (joined keep)) (fun _ => True)
      (ext2fsReadFile left node pos len) (ext2fsReadFile right node pos len) :=
  .bind (.onFirst (ext2BlockSizeInt_agrees _)) fun blocksize _ =>
    eachBlock_agrees _ (twins.readFileBlock stable (fileRange node pos len blocksize) volume) _ _ _

theorem readFresh {node : Node} (volume : usable node.data) (pos len : Nat) :
    RunsAlike shortLeft shortRight (joined keep) (fun _ => True) (readFresh left node pos len)
      (Ext2.readFresh right node pos len) :=
  .scratch (twins.readFile stable volume pos len)

theorem readLocal {node : Node} (volume : usable node.data) (room pos len : Nat) :
    RunsAlike shortLeft shortRight (joined keep) (fun _ => True) (readLocal left room node pos len)
      (Ext2.readLocal right room node pos len) :=
  have beside (before after : Fs × Buffer) (states : Prog.Beside (joined keep) before after) :
      before.2 room = none ↔ after.2 room = none := by rw [states.2]
  .scratch (.confine (twins.readFile stable volume pos len) beside beside)

end Reading

section Directories

variable (twins : Twins left right shortLeft shortRight usable joined) (stable : Stable keep)
  (sizes : SameSizes keep)
include twins stable sizes

theorem nodeInode (node : Node) :
    RunsAlike shortLeft shortRight (joined keep) (fun _ => True) (nodeInode left node)
      (Ext2.nodeInode right node) := by
  unfold Ext2.nodeInode
  exact .ite (fun _ => .pure trivial) fun _ => twins.readInode stable sizes _ _

theorem direntNode {data : Ext2Data} (volume : usable data) (ino : Nat) (filetype : UInt8) :
    RunsAlike shortLeft shortRight (joined keep) (fun entry => usable entry.1.data)
      (direntNode left data ino filetype) (Ext2.direntNode right data ino filetype) := by
  unfold Ext2.direntNode
  refine .bind (twins.mallocs stable _) fun _ _ => ?_
  refine .ite (fun _ => .pure volume) fun _ => ?_
  exact .bind (twins.readInode stable sizes _ _) fun inode _ => .pure volume

theorem direntAt {dir : Node} (volume : usable dir.data) (fpos : Nat) :
    RunsAlike shortLeft shortRight (joined keep)
      (fun entry => ∀ dirent, entry.2 = some dirent → usable dirent.node.data)
      (direntAt left dir fpos) (Ext2.direntAt right dir fpos) := by
  unfold Ext2.direntAt
  refine .bind (twins.readLocal stable volume _ _ _) fun dirent _ => ?_
  refine .bind .definedAny fun namelen _ => ?_
  refine .ite (fun _ => ?_) fun _ => ?_
  · refine .bind (twins.readLocal stable volume _ _ _) fun filename _ => ?_
    refine .bind .definedAny fun ino _ => ?_
    refine .bind .definedAny fun type _ => ?_
    refine .bind (twins.direntNode stable sizes volume _ _) fun entry node => ?_
    refine .bind .definedAny fun len _ => ?_
    exact .pure fun _ same => by cases same; exact node
  · refine .bind .definedAny fun len _ => ?_
    exact .pure fun _ same => by cases same

theorem iterateDirFrom {dir : Node} (volume : usable dir.data) (name : Option Str) (fuel fpos : Nat) :
    RunsAlike shortLeft shortRight (joined keep) (fun entry => usable entry.1.data)
      (iterateDirFrom left dir name fuel fpos) (Ext2.iterateDirFrom right dir name fuel fpos) := by
  induction fuel generalizing fpos with
  | zero => exact .unfinished
  | succ fuel ih =>
      unfold Ext2.iterateDirFrom
      refine .ite (fun _ => ?_) fun _ => .fail _ same_related
      refine .bind (twins.direntAt stable sizes volume fpos) fun read entries => ?_
      obtain ⟨direntlen, entry⟩ := read
      cases entry with
      | none => exact ih _
      | some entry =>
          cases name with
          | none => exact .bind (twins.nodeInode stable sizes _) fun _ _ => ih _
          | some name =>
              refine .bind .definedAny fun found _ => ?_
              exact .ite (fun _ => .pure (entries entry rfl)) fun _ => ih _

theorem iterateDir {dir : Node} (volume : usable dir.data) (fuel : Nat) (name : Option Str) :
    RunsAlike shortLeft shortRight (joined keep) (fun entry => usable entry.1.data)
      (ext2fsIterateDir left fuel dir name) (ext2fsIterateDir right fuel dir name) :=
  .bind (twins.nodeInode stable sizes dir) fun inode _ =>
    twins.iterateDirFrom stable sizes (show usable ({ dir with inode } : Node).data from volume) name fuel 0

theorem readSymlink {node : Node} (volume : usable node.data) :
    RunsAlike shortLeft shortRight (joined keep) (fun _ => True) (ext2fsReadSymlink left node)
      (ext2fsReadSymlink right node) := by
  unfold ext2fsReadSymlink
  refine .bind (twins.nodeInode stable sizes node) fun inode _ => ?_
  refine .bind (twins.mallocs stable _) fun _ _ => ?_
  refine .ite (fun _ => .pure trivial) fun _ => ?_
  refine .bind (twins.readFresh stable (show usable ({ node with inode } : Node).data from volume) _ _)
    fun buffer _ => ?_
  exact .defined fun _ _ => trivial

end Directories

section Paths

variable (twins : Twins left right shortLeft shortRight usable joined)
  {files : Option Node → Option Node → Prop}
include twins

/-- A lookup of a path from a directory, or from another node. -/
abbrev Finds {γ : Type} (shortLeft shortRight : Prop) (usable : Ext2Data → Prop)
    (related : Fs → Fs → Prop) (left right : FsProg (Node × γ)) : Prop :=
  RunsAlike shortLeft shortRight related (fun found => usable found.1.data) left right

theorem nest {before after : Fs} (states : joined (Walking usable files) before after) (nest : Nat → Nat) :
    joined (Walking usable files) { before with symlinknest := nest before.symlinknest }
      { after with symlinknest := nest after.symlinknest } := by
  have walking := twins.keeps states
  exact twins.change states ⟨rfl, rfl, rfl, rfl, rfl⟩ ⟨rfl, rfl, rfl, rfl, rfl⟩
    ⟨⟨walking.inodeSize, walking.root, walking.usable, walking.files⟩, congrArg nest walking.symlinknest⟩

theorem followSymlink {find find' : Str → Node → FsProg (Node × Option FileType)}
    (finds : ∀ name root, usable root.data →
      Finds shortLeft shortRight usable (joined (Walking usable files)) (find name root) (find' name root))
    {currnode oldnode : Node} (current : usable currnode.data) (old : usable oldnode.data) :
    Finds shortLeft shortRight usable (joined (Walking usable files))
      (followSymlink left find currnode oldnode) (Ext2.followSymlink right find' currnode oldnode) := by
  unfold Ext2.followSymlink
  refine .bind (.update fun _ _ states => twins.nest states (· + 1)) fun _ _ => ?_
  refine .bindVia _ (fun _ => True)
    (.view fun _ _ states => ⟨(twins.keeps states).symlinknest, trivial⟩) fun nest _ => ?_
  refine .ite (fun _ => .fail _ same_related) fun _ => ?_
  refine .bind (twins.readSymlink Walking.stable Walking.sizes current) fun symlink _ => ?_
  have lookup : ∀ {root : Node}, usable root.data →
      Finds shortLeft shortRight usable (joined (Walking usable files)) (do
        let found ← Prog.mapError (fun _ => .fsNotFound) (find symlink root)
        pure (found.1, found.2.getD .symlink)) (do
        let found ← Prog.mapError (fun _ => .fsNotFound) (find' symlink root)
        pure (found.1, found.2.getD .symlink)) := fun volume =>
    .bind (.mapError _ (finds symlink _ volume)) fun _ node => .pure node
  refine .ite (fun _ => ?_) fun _ => lookup old
  refine .bindVia _ (fun root => ∀ data, root = some data → usable data)
    (.view fun _ _ states => ⟨(twins.keeps states).root, (twins.keeps states).usable⟩) fun root volume => ?_
  exact .bindVia _ (fun data : Ext2Data => usable data) (.defined volume)
    fun data volume => lookup (show usable data.diropen.data from volume)

theorem findLoop (fuel : Nat) (name : Str) {currnode : Node} (current : usable currnode.data)
    (type : FileType) :
    Finds shortLeft shortRight usable (joined (Walking usable files))
      (findLoop left fuel name currnode type) (Ext2.findLoop right fuel name currnode type) := by
  induction fuel generalizing name currnode type with
  | zero => exact .unfinished
  | succ fuel ih =>
      unfold Ext2.findLoop
      refine .ite (fun _ => .fail _ same_related) fun _ => ?_
      refine .bind (twins.iterateDir Walking.stable Walking.sizes current _ _) fun found node => ?_
      obtain ⟨foundnode, foundtype⟩ := found
      have go : ∀ {next : Node}, usable next.data → ∀ type : FileType,
          Finds shortLeft shortRight usable (joined (Walking usable files))
            (goOn (fun rest => Ext2.findLoop left fuel rest next type) (splitName name).2 next type)
            (goOn (fun rest => Ext2.findLoop right fuel rest next type) (splitName name).2 next type) := by
        intro next volume type
        unfold goOn
        split
        · exact .pure volume
        · exact .pure volume
        · exact ih _ volume _
      refine .ite (fun _ => ?_) fun _ => go node _
      refine .bind (twins.followSymlink ?_ node current) fun followed node => go node _
      intro name root volume
      unfold enterPath
      split
      · exact .pure volume
      · exact ih _ volume _

/-- `ext2fs_find_file` starts with no symlink followed. -/
theorem findFile (fuel : Nat) (path : Str) {root : Node} (volume : usable root.data) (expecttype : FileType) :
    Prog.Agrees shortLeft shortRight (joined (Rooted usable files)) (joined (Walking usable files))
      (joined (Walking usable files)) (fun found => usable found.1.data)
      (ext2fsFindFile left fuel path root expecttype) (ext2fsFindFile right fuel path root expecttype) := by
  unfold ext2fsFindFile
  refine .bindVia (joined (Walking usable files)) _ (.update fun _ _ states => ?_) fun _ _ => ?_
  · have rooted := twins.keeps states
    exact twins.change states ⟨rfl, rfl, rfl, rfl, rfl⟩ ⟨rfl, rfl, rfl, rfl, rfl⟩
      ⟨⟨rooted.inodeSize, rooted.root, rooted.usable, rooted.files⟩, rfl⟩
  have first : Finds shortLeft shortRight usable (joined (Walking usable files))
      (ext2fsFindFile1 left fuel path root) (ext2fsFindFile1 right fuel path root) := by
    unfold ext2fsFindFile1 enterPath
    split
    · exact .pure volume
    · exact twins.findLoop fuel _ volume _
  refine .bind first fun found node => ?_
  refine .ite (fun _ => .fail _ same_related) fun _ => ?_
  exact .ite (fun _ => .fail _ same_related) fun _ => .pure node

end Paths

section Calls

variable (twins : Twins left right shortLeft shortRight usable joined)
  {files : Option Node → Option Node → Prop}
include twins

/-- What is left of the states once more, of whatever they had in common before. -/
theorem states {keep : Fs → Fs → Prop} {before after : Fs} (states : joined keep before after) :
    joined (fun _ _ => True) before after :=
  twins.change states ⟨rfl, rfl, rfl, rfl, rfl⟩ ⟨rfl, rfl, rfl, rfl, rfl⟩ trivial

/-- Both runs read the same superblock, of a usable volume. -/
abbrev SupersAlike (left right : Machine) (shortLeft shortRight : Prop) (usable : Ext2Data → Prop)
    (joined : (Fs → Fs → Prop) → Fs → Fs → Prop) : Prop :=
  RunsAlike shortLeft shortRight (joined fun _ _ => True) (fun sblock => ∀ rootInode, usable { sblock, rootInode })
    (Ext2.readStruct left 2 0 204) (Ext2.readStruct right 2 0 204)

theorem readSuper (supers : SupersAlike left right shortLeft shortRight usable joined) :
    Prog.Agrees shortLeft shortRight (joined fun _ _ => True)
      (joined fun before after => before.inodeSize = after.inodeSize) (joined fun _ _ => True) usable
      (readSuper left) (Ext2.readSuper right) := by
  unfold Ext2.readSuper
  refine .bind supers fun sblock volume => ?_
  refine .ite (fun _ => .fail _ same_related) fun _ => ?_
  refine .bindVia (joined fun before after => before.inodeSize = after.inodeSize) _
    (.update fun _ _ states => twins.change states ⟨rfl, rfl, rfl, rfl, rfl⟩ ⟨rfl, rfl, rfl, rfl, rfl⟩ rfl)
    fun _ _ => ?_
  refine .bind (.conseq (twins.readInode stable_inodeSize (fun _ _ same => same) _ _) same_related
    same_related (fun _ _ states => twins.states states) fun _ same => same) fun rootInode _ => ?_
  exact .pure (volume rootInode)

theorem mount (supers : SupersAlike left right shortLeft shortRight usable joined) :
    Prog.Agrees shortLeft shortRight (joined fun _ _ => True) (joined (Rooted usable fun _ _ => True))
      (joined fun _ _ => True) (fun _ => True) (ext2fsMount left) (ext2fsMount right) := by
  unfold ext2fsMount
  refine .bind (twins.mallocs stable_true _) fun _ _ => ?_
  refine .bindVia (joined fun _ _ => True) _
    (.update fun _ _ states => twins.change states ⟨rfl, rfl, rfl, rfl, rfl⟩ ⟨rfl, rfl, rfl, rfl, rfl⟩ trivial)
    fun _ _ => ?_
  refine .bind (.onError (twins.readSuper supers) fun _ _ states =>
    twins.change states ⟨rfl, rfl, rfl, rfl, rfl⟩ ⟨rfl, rfl, rfl, rfl, rfl⟩ trivial) fun data volume => ?_
  refine .update fun _ _ states => twins.change states ⟨rfl, rfl, rfl, rfl, rfl⟩ ⟨rfl, rfl, rfl, rfl, rfl⟩
    ⟨twins.keeps states, rfl, fun _ same => ?_, trivial⟩
  cases same
  exact volume

/-- `ext2fs_open`: both runs open the same file. -/
theorem openFile (fuel : Nat) (filename : Str) :
    Prog.Agrees shortLeft shortRight (joined (Rooted usable files))
      (joined (Rooted usable (SameFile usable))) (joined fun _ _ => True) (fun _ => True)
      (ext2fsOpen left fuel filename) (ext2fsOpen right fuel filename) := by
  unfold ext2fsOpen
  refine .bindVia _ (fun root => ∀ data, root = some data → usable data)
    (.view fun _ _ states => ⟨(twins.keeps states).root, (twins.keeps states).usable⟩) fun root volume => ?_
  cases root with
  | none => exact .fail _ fun _ _ states => twins.states states
  | some root =>
      refine .bindVia (joined (Rooted usable fun _ _ => True)) _ (.update fun _ _ states => ?_) fun _ _ => ?_
      · have rooted := twins.keeps states
        exact twins.change states ⟨rfl, rfl, rfl, rfl, rfl⟩ ⟨rfl, rfl, rfl, rfl, rfl⟩
          ⟨rooted.inodeSize, rooted.root, rooted.usable, trivial⟩
      refine .bind (.conseq (twins.findFile fuel filename (show usable root.diropen.data from volume root rfl) .reg)
        same_related same_related (fun _ _ states => twins.states states) fun _ same => same) fun found node => ?_
      obtain ⟨fdiro, foundtype⟩ := found
      refine .bind (.conseq (twins.nodeInode Walking.stable Walking.sizes fdiro) same_related same_related
        (fun _ _ states => twins.states states) fun _ same => same) fun inode _ => ?_
      refine .bind (.update fun _ _ states => ?_) fun _ _ => .pure trivial
      have walking := twins.keeps states
      refine twins.change states ⟨rfl, rfl, rfl, rfl, rfl⟩ ⟨rfl, rfl, rfl, rfl, rfl⟩
        ⟨walking.inodeSize, walking.root, walking.usable, rfl, fun _ same => ?_⟩
      cases same
      exact node

/-- `ext2fs_read` of the file both runs have open. -/
theorem readOpen (len : Nat) :
    RunsAlike shortLeft shortRight (Prog.Beside (ρ := Buffer) (joined (Rooted usable (SameFile usable))))
      (fun _ => True) (ext2fsRead left len) (ext2fsRead right len) := by
  unfold ext2fsRead
  refine .bindVia _ (fun globals => ∀ node, globals.2 = some node → usable node.data)
    (.onFirst (.view fun _ _ states => ⟨?_, (twins.keeps states).files.2⟩)) fun globals volume => ?_
  · rw [(twins.keeps states).root, (twins.keeps states).files.1]
  obtain ⟨root, file⟩ := globals
  cases root with
  | none => exact .fail _ same_related
  | some root =>
      cases file with
      | none => exact .fail _ same_related
      | some file => exact twins.readFile Rooted.stable (volume file rfl) 0 len

end Calls

end Twins

end IQuik.Ext2
