import IQuik.Ext2.Caches
import IQuik.Ext2.Paths
import IQuik.Program.Frames

namespace IQuik.Ext2

open IQuik.Data IQuik.Program IQuik.Storage

/-! # What reading leaves as it is

Reading a volume makes calls and fills the caches, and changes nothing else.
-/

variable {machine : Machine}

abbrev KeepsNear {α : Type} (program : FsProg α) : Prop := Prog.Keeps Near program

abbrev FillKeepsNear (program : FillProg Unit) : Prop :=
  Prog.Keeps (fun before after : Fs × Buffer => Near before.1 after.1) program

theorem frameNear : Prog.Frame Near := ⟨.refl, .trans⟩

theorem frameNearFill : Prog.Frame fun before after : Fs × Buffer => Near before.1 after.1 :=
  ⟨fun state => .refl state.1, .trans⟩

theorem malloc_near (size : Nat) : KeepsNear (malloc machine size) := by
  intro before after returned
  simp only [malloc] at returned
  split at returned <;> cases returned <;> exact ⟨_, _, _, _, rfl⟩

theorem shl32_near (value count : Nat) : KeepsNear (shl32 value count) :=
  .bind frameNear (.arith frameNear _) fun _ => .pure frameNear _

theorem ext2BlockSize_near (data : Ext2Data) : KeepsNear (ext2BlockSize data) :=
  .bind frameNear (.arith frameNear _) fun _ => .pure frameNear _

theorem ext2BlockSizeInt_near (data : Ext2Data) : KeepsNear (ext2BlockSizeInt data) :=
  .bind frameNear (ext2BlockSize_near data) fun _ =>
    .bind frameNear (.demand frameNear _) fun _ => .pure frameNear _

theorem partRead_near (sector byteOffset byteLen place : Nat) :
    FillKeepsNear (partRead machine sector byteOffset byteLen place) := by
  refine .bind frameNearFill (.view frameNearFill _) fun part => ?_
  refine .ite (.fail frameNearFill _) ?_
  refine .bind frameNearFill (.onFirst fun before after returned => ?_) fun answer => ?_
  · simp only [diskRead] at returned
    split at returned <;> cases returned <;> exact ⟨_, _, _, _, rfl⟩
  · refine .bind frameNearFill (.update fun _ => .refl _) fun _ => ?_
    exact .ite (.pure frameNearFill _) (.fail frameNearFill _)

theorem readStruct_near (sector byteOffset width : Nat) :
    KeepsNear (readStruct machine sector byteOffset width) :=
  .bind frameNear (.scratch (partRead_near _ _ _ _)) fun _ => .pure frameNear _

theorem blockgroup_near (data : Ext2Data) (group : Nat) : KeepsNear (ext2fsBlockgroup machine data group) := by
  refine .bind frameNear (ext2BlockSize_near data) fun _ => ?_
  refine .bind frameNear (.arith frameNear _) fun _ => ?_
  exact .bind frameNear (shl32_near _ _) fun _ => readStruct_near _ _ _

theorem readInode_near (data : Ext2Data) (ino : Nat) :
    KeepsNear (ext2fsReadInode machine data ino) := by
  refine .bind frameNear (.arith frameNear _) fun _ => ?_
  refine .bind frameNear (blockgroup_near data _) fun _ => ?_
  refine .bind frameNear (ext2BlockSize_near data) fun _ => ?_
  refine .bind frameNear (.view frameNear _) fun _ => ?_
  refine .bind frameNear (.arith frameNear _) fun _ => ?_
  refine .bind frameNear (.arith frameNear _) fun _ => ?_
  refine .bind frameNear (shl32_near _ _) fun _ => ?_
  exact .bind frameNear (readStruct_near _ _ _) fun _ => .pure frameNear _

theorem nodeInode_near (node : Node) : KeepsNear (nodeInode machine node) :=
  .ite (.pure frameNear _) (readInode_near _ _)

theorem put_near (slot : Slot) (cache : IndirCache) (fs : Fs) :
    Near fs (slot.put cache fs) := by
  exact slot.near_put cache fs (.refl fs)

theorem loadIndir_near (slot : Slot) (blksz log2Blksz : Nat) {pointer : FsProg Nat}
    (points : KeepsNear pointer) : KeepsNear (loadIndir machine slot blksz log2Blksz pointer) := by
  have allocate : KeepsNear (allocateIndir machine slot blksz) :=
    .bind frameNear (malloc_near _) fun _ => .update (put_near slot _)
  have ensure : KeepsNear (ensureIndir machine slot blksz) := by
    refine .bind frameNear (.view frameNear _) fun cache => ?_
    have second : KeepsNear (do
        let cache ← Prog.view slot.get
        if blksz ≠ cache.size then do
          Prog.update (slot.put .empty)
          allocateIndir machine slot blksz) := by
      refine .bind frameNear (.view frameNear _) fun cache => .ite ?_ (.pure frameNear _)
      exact .bind frameNear (.update (put_near slot _)) fun _ => allocate
    exact .ite (.bind frameNear allocate fun _ => second) second
  have fill : ∀ sector, KeepsNear (fillIndir machine slot blksz sector) := fun sector =>
    .bind frameNear (.inPlace frameNear (partRead_near _ _ _ _) fun _ _ => put_near slot _ _)
      fun _ => .update fun fs => put_near slot _ fs
  refine .bind frameNear ensure fun _ => .bind frameNear points fun _ => ?_
  refine .bind frameNear (shl32_near _ _) fun sector => ?_
  refine .bind frameNear (.view frameNear _) fun cache => ?_
  exact .ite (fill sector) (.pure frameNear _)

theorem indirEntry_near (slot : Slot) (index : Nat) : KeepsNear (indirEntry slot index) :=
  .bind frameNear (.view frameNear _) fun _ =>
    .bind frameNear (.demand frameNear _) fun _ => .defined frameNear _

theorem readBlock_near (node : Node) (i : Nat) : KeepsNear (ext2fsReadBlock machine node i) := by
  refine .bind frameNear (ext2BlockSizeInt_near _) fun blksz => ?_
  refine .bind frameNear (.demand frameNear _) fun _ => ?_
  refine .ite (.pure frameNear _) (.ite ?_ ?_)
  · exact .bind frameNear (loadIndir_near _ _ _ (.pure frameNear _)) fun _ =>
      indirEntry_near _ _
  · refine .bind frameNear (.demand frameNear _) fun _ => .ite ?_ (.fail frameNear _)
    refine .bind frameNear (loadIndir_near _ _ _ (.pure frameNear _)) fun _ => ?_
    exact .bind frameNear (loadIndir_near _ _ _ (indirEntry_near _ _)) fun _ =>
      indirEntry_near _ _

theorem readFile_near (node : Node) (pos len : Nat) :
    FillKeepsNear (ext2fsReadFile machine node pos len) := by
  have block : ∀ range i place, FillKeepsNear (readFileBlock machine range i place) := by
    intro range i place
    refine .bind frameNearFill (.onFirst (.bind frameNear (readBlock_near _ _) fun _ =>
      shl32_near _ _)) fun sector => ?_
    exact .ite (partRead_near _ _ _ _) (.update fun _ => .refl _)
  have blocks : ∀ range count i place, FillKeepsNear (readFileBlocks machine range count i place) := by
    intro range count i place
    unfold readFileBlocks
    induction count generalizing i place with
    | zero => exact .pure frameNearFill _
    | succ count ih => exact .bind frameNearFill (block _ _ _) fun _ => ih _ _
  exact .bind frameNearFill (.onFirst (ext2BlockSizeInt_near _)) fun _ => blocks _ _ _ _

theorem readFresh_near (node : Node) (pos len : Nat) : KeepsNear (readFresh machine node pos len) :=
  .scratch (readFile_near node pos len)

theorem readLocal_near (room : Nat) (node : Node) (pos len : Nat) : KeepsNear (readLocal machine room node pos len) :=
  .scratch (.confine (readFile_near node pos len))

theorem direntAt_near (dir : Node) (fpos : Nat) : KeepsNear (direntAt machine dir fpos) := by
  have node : ∀ data ino filetype, KeepsNear (direntNode machine data ino filetype) := by
    intro data ino filetype
    refine .bind frameNear (malloc_near _) fun _ => .ite (.pure frameNear _) ?_
    exact .bind frameNear (readInode_near _ _) fun _ => .pure frameNear _
  refine .bind frameNear (readLocal_near _ _ _ _) fun dirent => ?_
  refine .bind frameNear (.defined frameNear _) fun namelen => .ite ?_ ?_
  · refine .bind frameNear (readLocal_near _ _ _ _) fun filename => ?_
    refine .bind frameNear (.defined frameNear _) fun ino => ?_
    refine .bind frameNear (.defined frameNear _) fun filetype => ?_
    refine .bind frameNear (node _ _ _) fun entry => ?_
    exact .bind frameNear (.defined frameNear _) fun _ => .pure frameNear _
  · exact .bind frameNear (.defined frameNear _) fun _ => .pure frameNear _

theorem iterateDir_near (fuel : Nat) (dir : Node) (name : Option Str) :
    KeepsNear (ext2fsIterateDir machine fuel dir name) := by
  have loop : ∀ dir fuel fpos, KeepsNear (iterateDirFrom machine dir name fuel fpos) := by
    intro dir fuel
    induction fuel with
    | zero => exact fun _ => .unfinished
    | succ fuel ih =>
        intro fpos
        refine .ite (.bind frameNear (direntAt_near dir fpos) fun read => ?_) (.fail frameNear _)
        obtain ⟨direntlen, entry⟩ := read
        cases entry with
        | none => exact ih _
        | some entry =>
            cases name with
            | none => exact .bind frameNear (nodeInode_near _) fun _ => ih _
            | some name =>
                exact .bind frameNear (.defined frameNear _) fun _ => .ite (.pure frameNear _) (ih _)
  exact .bind frameNear (nodeInode_near dir) fun _ => loop _ _ _

theorem readSymlink_near (node : Node) : KeepsNear (ext2fsReadSymlink machine node) := by
  refine .bind frameNear (nodeInode_near node) fun _ => ?_
  refine .bind frameNear (malloc_near _) fun _ => .ite (.pure frameNear _) ?_
  exact .bind frameNear (readFresh_near _ _ _) fun _ => .defined frameNear _

end IQuik.Ext2
