import IQuik.Ext2.Scans
import IQuik.Program.Fuel

namespace IQuik.Ext2

open IQuik.Data IQuik.Program IQuik.Storage

/-! # Which functions end

Only the scan of a directory and the lookup of a path have loops that may go on
for ever. What they do with some fuel they do with more of it.
-/

variable {machine : Machine}

section Reading

theorem malloc_ends (size : Nat) : Prog.Ends (malloc machine size) := by
  intro state stopped
  simp only [malloc] at stopped
  split at stopped <;> cases stopped

theorem shl32_ends {σ : Type} (value count : Nat) : Prog.Ends (shl32 value count : Prog QuikErr σ Nat) :=
  .bind (.arith _) fun _ => .pure _

theorem ext2BlockSize_ends {σ : Type} (data : Ext2Data) :
    Prog.Ends (ext2BlockSize data : Prog QuikErr σ Nat) :=
  .bind (.arith _) fun _ => .pure _

theorem ext2BlockSizeInt_ends {σ : Type} (data : Ext2Data) :
    Prog.Ends (ext2BlockSizeInt data : Prog QuikErr σ Nat) :=
  .bind (ext2BlockSize_ends data) fun _ => .bind (.demand _) fun _ => .pure _

theorem partRead_ends (sector byteOffset byteLen place : Nat) :
    Prog.Ends (partRead machine sector byteOffset byteLen place) := by
  refine .bind (.view _) fun part => .ite (.fail _) ?_
  refine .bind (.onFirst fun state stopped => ?_) fun answer => ?_
  · simp only [diskRead] at stopped
    split at stopped <;> cases stopped
  · exact .bind (.update _) fun _ => .ite (.pure _) (.fail _)

theorem readStruct_ends (sector byteOffset width : Nat) :
    Prog.Ends (readStruct machine sector byteOffset width) :=
  .bind (.scratch (partRead_ends _ _ _ _)) fun _ => .pure _

theorem readInode_ends (data : Ext2Data) (ino : Nat) : Prog.Ends (ext2fsReadInode machine data ino) := by
  have group : ∀ group, Prog.Ends (ext2fsBlockgroup machine data group) := by
    intro group
    refine .bind (ext2BlockSize_ends data) fun _ => .bind (.arith _) fun _ => ?_
    exact .bind (shl32_ends _ _) fun _ => readStruct_ends _ _ _
  refine .bind (.arith _) fun _ => .bind (group _) fun _ => ?_
  refine .bind (ext2BlockSize_ends data) fun _ => .bind (.view _) fun _ => ?_
  refine .bind (.arith _) fun _ => .bind (.arith _) fun _ => ?_
  exact .bind (shl32_ends _ _) fun _ => .bind (readStruct_ends _ _ _) fun _ => .pure _

theorem nodeInode_ends (node : Node) : Prog.Ends (nodeInode machine node) :=
  .ite (.pure _) (readInode_ends _ _)

theorem loadIndir_ends (slot : Slot) (blksz log2Blksz : Nat) {pointer : FsProg Nat}
    (points : Prog.Ends pointer) : Prog.Ends (loadIndir machine slot blksz log2Blksz pointer) := by
  have allocate : Prog.Ends (allocateIndir machine slot blksz) :=
    .bind (malloc_ends _) fun _ => .update _
  have ensure : Prog.Ends (ensureIndir machine slot blksz) := by
    refine .bind (.view _) fun cache => ?_
    have second : Prog.Ends (do
        let cache ← Prog.view slot.get
        if blksz ≠ cache.size then do
          Prog.update (slot.put .empty)
          allocateIndir machine slot blksz) :=
      .bind (.view _) fun cache => .ite (.bind (.update _) fun _ => allocate) (.pure _)
    exact .ite (.bind allocate fun _ => second) second
  have fill : ∀ sector, Prog.Ends (fillIndir machine slot blksz sector) := fun sector =>
    .bind (.inPlace (partRead_ends _ _ _ _)) fun _ => .update _
  refine .bind ensure fun _ => .bind points fun _ => .bind (shl32_ends _ _) fun sector => ?_
  exact .bind (.view _) fun cache => .ite (fill sector) (.pure _)

theorem indirEntry_ends (slot : Slot) (index : Nat) : Prog.Ends (indirEntry slot index) :=
  .bind (.view _) fun _ => .bind (.demand _) fun _ => .defined _

theorem readBlock_ends (node : Node) (i : Nat) : Prog.Ends (ext2fsReadBlock machine node i) := by
  refine .bind (ext2BlockSizeInt_ends _) fun blksz => .bind (.demand _) fun _ => ?_
  refine .ite (.pure _) (.ite ?_ ?_)
  · exact .bind (loadIndir_ends _ _ _ (.pure _)) fun _ => indirEntry_ends _ _
  · refine .bind (.demand _) fun _ => .ite ?_ (.fail _)
    refine .bind (loadIndir_ends _ _ _ (.pure _)) fun _ => ?_
    exact .bind (loadIndir_ends _ _ _ (indirEntry_ends _ _)) fun _ => indirEntry_ends _ _

theorem readFile_ends (node : Node) (pos len : Nat) : Prog.Ends (ext2fsReadFile machine node pos len) := by
  have block : ∀ range i place, Prog.Ends (readFileBlock machine range i place) := by
    intro range i place
    refine .bind (.onFirst (.bind (readBlock_ends _ _) fun _ => shl32_ends _ _)) fun sector => ?_
    exact .ite (partRead_ends _ _ _ _) (.update _)
  have blocks : ∀ range count i place, Prog.Ends (readFileBlocks machine range count i place) := by
    intro range count i place
    unfold readFileBlocks
    induction count generalizing i place with
    | zero => exact .pure _
    | succ count ih => exact .bind (block _ _ _) fun _ => ih _ _
  exact .bind (.onFirst (ext2BlockSizeInt_ends _)) fun _ => blocks _ _ _ _

theorem readSymlink_ends (node : Node) : Prog.Ends (ext2fsReadSymlink machine node) := by
  refine .bind (nodeInode_ends node) fun _ => .bind (malloc_ends _) fun _ => .ite (.pure _) ?_
  exact .bind (.scratch (readFile_ends _ _ _)) fun _ => .defined _

end Reading

section Steps

/-- The directory that the target of a symlink in `oldnode` is looked up from. -/
def targetRoot (oldnode : Node) (symlink : Str) : FsProg Node :=
  if symlink.head? = some 47 then do
    let root ← Prog.defined (← Prog.view Fs.root)
    pure root.diropen
  else pure oldnode

theorem targetRoot_ends (oldnode : Node) (symlink : Str) : Prog.Ends (targetRoot oldnode symlink) :=
  .ite (.bind (.view _) fun _ => .bind (.defined _) fun _ => .pure _) (.pure _)

theorem followSymlink_eq (find : Str → Node → FsProg (Node × Option FileType)) (currnode oldnode : Node) :
    followSymlink machine find currnode oldnode =
      Prog.update (fun fs => { fs with symlinknest := fs.symlinknest + 1 }) >>= fun _ =>
        Prog.view Fs.symlinknest >>= fun nest =>
          if nest = 8 then Prog.fail .fsLoop
          else ext2fsReadSymlink machine currnode >>= fun symlink =>
            targetRoot oldnode symlink >>= fun root =>
              Prog.mapError (fun _ => .fsNotFound) (find symlink root) >>= fun found =>
                pure (found.1, found.2.getD .symlink) := by
  unfold followSymlink targetRoot
  congr 1
  funext _
  congr 1
  funext nest
  split
  · rfl
  congr 1
  funext symlink
  split
  · simp only [Prog.bind_assoc, Prog.pure_bind]
  · simp only [Prog.pure_bind]

theorem findLoop_eq (fuel : Nat) (name : Str) (currnode : Node) (type : FileType) :
    findLoop machine (fuel + 1) name currnode type =
      if type ≠ .directory then Prog.fail .fsNotDir
      else ext2fsIterateDir machine fuel currnode (some (splitName name).1) >>= fun entry =>
        (if entry.2 = .symlink then
          followSymlink machine (ext2fsFindFile1 machine fuel) entry.1 currnode
        else pure entry) >>= fun node =>
          goOn (fun next => findLoop machine fuel next node.1 node.2) (splitName name).2 node.1 node.2 := by
  rw [findLoop]
  split
  · rfl
  change (ext2fsIterateDir machine fuel currnode (some (splitName name).1) >>= fun entry => _) = _
  congr 1
  funext entry
  obtain ⟨node, type⟩ := entry
  dsimp only
  split <;> rfl

end Steps

section Loops

theorem iterateDir_grows (dir : Node) (name : Option Str) :
    Prog.Grows fun fuel => ext2fsIterateDir machine fuel dir name := by
  have loop : ∀ dir small large, small ≤ large → ∀ fpos,
      Prog.Extends (iterateDirFrom machine dir name small fpos) (iterateDirFrom machine dir name large fpos) := by
    intro dir small
    induction small with
    | zero => exact fun large _ fpos => .unfinished _
    | succ small ih =>
        intro large more fpos
        obtain ⟨large, rfl⟩ : ∃ less, large = less + 1 := ⟨large - 1, by omega⟩
        by_cases inside : fpos < dir.inode.size
        · rw [iterateDirFrom_inside small inside, iterateDirFrom_inside large inside]
          refine .bind (.refl _) fun scan => ?_
          cases scan with
          | found node type => exact .refl _
          | goOn next => exact ih large (by omega) next
        · rw [iterateDirFrom_outside small inside, iterateDirFrom_outside large inside]
          exact .refl _
  exact fun small large more => .bind (.refl _) fun _ => loop _ small large more _

variable {find find' : Str → Node → FsProg (Node × Option FileType)}

theorem enterPath_extends (grows : ∀ name root, Prog.Extends (find name root) (find' name root)) (path : Str)
    (root : Node) : Prog.Extends (enterPath find path root) (enterPath find' path root) := by
  unfold enterPath
  split
  · exact .refl _
  · exact grows _ _

theorem followSymlink_extends (grows : ∀ path root, Prog.Extends (find path root) (find' path root))
    (currnode oldnode : Node) :
    Prog.Extends (followSymlink machine find currnode oldnode) (followSymlink machine find' currnode oldnode) := by
  rw [followSymlink_eq, followSymlink_eq]
  refine .bind (.refl _) fun _ => .bind (.refl _) fun nest => .ite (.refl _) ?_
  refine .bind (.refl _) fun symlink => .bind (.refl _) fun root => ?_
  exact .bind (.mapError _ (grows symlink root)) fun _ => .refl _

theorem goOn_extends {loop loop' : Str → FsProg (Node × Option FileType)}
    (grows : ∀ name, Prog.Extends (loop name) (loop' name)) (next : Option Str) (node : Node) (type : FileType) :
    Prog.Extends (goOn loop next node type) (goOn loop' next node type) := by
  unfold goOn
  split
  · exact .refl _
  · exact .refl _
  · exact grows _

theorem findLoop_grows (name : Str) (currnode : Node) (type : FileType) :
    Prog.Grows fun fuel => findLoop machine fuel name currnode type := by
  intro small
  induction small generalizing name currnode type with
  | zero => exact fun _ _ => .unfinished _
  | succ small ih =>
      intro large more
      obtain ⟨large, rfl⟩ : ∃ less, large = less + 1 := ⟨large - 1, by omega⟩
      have less : small ≤ large := by omega
      dsimp only
      rw [findLoop_eq, findLoop_eq]
      refine .ite (.refl _) (.bind (iterateDir_grows currnode _ small large less) fun entry => ?_)
      have target := enterPath_extends fun name root => ih name root .directory large less
      refine .bind (.ite (followSymlink_extends target _ _) (.refl _)) fun node => ?_
      exact goOn_extends (fun next => ih next _ _ large less) _ _ _

theorem findFile1_grows (path : Str) (root : Node) :
    Prog.Grows fun fuel => ext2fsFindFile1 machine fuel path root :=
  fun small large more =>
    enterPath_extends (fun name root => findLoop_grows name root _ small large more) path root

end Loops

end IQuik.Ext2
