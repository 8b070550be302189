import IQuik.Ext2.Frames
import IQuik.Ext2.History
import IQuik.Storage.Handles

namespace IQuik.Ext2

open IQuik.Data IQuik.Program IQuik.Storage

/-! # Mounts over any calls -/

variable {machine : Machine}

/-- The partition, the mounted volume and the allocated volumes stay as they are. -/
abbrev SameMount (before after : Fs) : Prop :=
  (after.part, after.root, after.dataBlocks) = (before.part, before.root, before.dataBlocks)

abbrev KeepsMount {α : Type} (program : FsProg α) : Prop := Prog.Keeps SameMount program

abbrev FillKeepsMount (program : FillProg Unit) : Prop :=
  Prog.Keeps (fun before after : Fs × Buffer => SameMount before.1 after.1) program

theorem frameMount : Prog.Frame SameMount :=
  .of_same fun fs : Fs => (fs.part, fs.root, fs.dataBlocks)

theorem frameFill : Prog.Frame fun before after : Fs × Buffer => SameMount before.1 after.1 :=
  .of_same fun state : Fs × Buffer => (state.1.part, state.1.root, state.1.dataBlocks)

theorem Near.sameMount {before after : Fs} (near : Near before after) : SameMount before after := by
  obtain ⟨_, _, _, _, rfl⟩ := near
  rfl

theorem keepsMount_of_near {α : Type} {program : FsProg α} (near : KeepsNear program) :
    KeepsMount program := .mono near fun _ _ => Near.sameMount

theorem enterPath_keeps {loop : Str → Node → FsProg (Node × Option FileType)}
    (loops : ∀ name root, KeepsMount (loop name root)) (path : Str) (root : Node) :
    KeepsMount (enterPath loop path root) := by
  unfold enterPath
  split
  · exact .pure frameMount _
  · exact loops _ _

theorem findLoop_keeps (fuel : Nat) (name : Str) (node : Node) (type : FileType) :
    KeepsMount (findLoop machine fuel name node type) := by
  induction fuel generalizing name node type with
  | zero => exact .unfinished
  | succ fuel ih =>
      have goes : ∀ next node type, KeepsMount
          (goOn (fun rest => findLoop machine fuel rest node type) next node type) := by
        intro next node type
        unfold goOn
        split
        · exact .pure frameMount _
        · exact .pure frameMount _
        · exact ih _ _ _
      have follows : ∀ node old, KeepsMount (followSymlink machine
          (enterPath fun name root => findLoop machine fuel name root .directory) node old) := by
        intro node old
        refine .bind frameMount (.update fun _ => rfl) fun _ => ?_
        refine .bind frameMount (.view frameMount _) fun _ => .ite (.fail frameMount _) ?_
        refine .bind frameMount (keepsMount_of_near (readSymlink_near _)) fun symlink => ?_
        have lookup : ∀ root, KeepsMount (do
            let found ← Prog.mapError (fun _ => .fsNotFound)
              (enterPath (fun name root => findLoop machine fuel name root .directory) symlink root)
            pure (found.1, found.2.getD .symlink)) := fun root =>
          .bind frameMount (.mapError _ (enterPath_keeps (fun _ _ => ih _ _ _) _ _)) fun _ =>
            .pure frameMount _
        refine .ite ?_ (lookup _)
        exact .bind frameMount (.view frameMount _) fun _ =>
          .bind frameMount (.defined frameMount _) fun _ => lookup _
      refine .ite (.fail frameMount _) (.bind frameMount (keepsMount_of_near (iterateDir_near _ _ _)) fun found => ?_)
      exact .ite (.bind frameMount (follows _ _) fun _ => goes _ _ _) (goes _ _ _)

theorem findFile_keeps (fuel : Nat) (path : Str) (root : Node) (expecttype : FileType) :
    KeepsMount (ext2fsFindFile machine fuel path root expecttype) := by
  refine .bind frameMount (.update fun _ => rfl) fun _ => ?_
  refine .bind frameMount (enterPath_keeps (fun _ _ => findLoop_keeps _ _ _ _) _ _) fun found => ?_
  exact .ite (.fail frameMount _) (.ite (.fail frameMount _) (.pure frameMount _))

theorem open_keeps (machine : Machine) (fuel : Nat) (filename : Str) : KeepsMount (ext2fsOpen machine fuel filename) := by
  refine .bind frameMount (.view frameMount _) fun root => ?_
  cases root with
  | none => exact .fail frameMount _
  | some root =>
      refine .bind frameMount (.update fun _ => rfl) fun _ => ?_
      refine .bind frameMount (findFile_keeps _ _ _ _) fun _ => ?_
      refine .bind frameMount (keepsMount_of_near (nodeInode_near _)) fun _ => ?_
      exact .bind frameMount (.update fun _ => rfl) fun _ => .pure frameMount _

theorem ls_keeps (machine : Machine) (fuel : Nat) (dirname : Str) : KeepsMount (ext2fsLs machine fuel dirname) := by
  refine .bind frameMount (.view frameMount _) fun root => ?_
  cases root with
  | none => exact .fail frameMount _
  | some root =>
      refine .bind frameMount (findFile_keeps _ _ _ _) fun _ => ?_
      exact .bind frameMount (.attempt (keepsMount_of_near (iterateDir_near _ _ _))) fun _ => .pure frameMount _

theorem read_keeps (len : Nat) : FillKeepsMount (ext2fsRead machine len) := by
  refine .bind frameFill (.onFirst (.view frameMount _)) fun globals => ?_
  split
  · exact .mono (readFile_near _ _ _) fun _ _ => Near.sameMount
  · exact .fail frameFill _

/-- What `part_open` keeps: it mounts nothing, and marks nothing as mounted. -/
def MountsNothing (before after : Fs) : Prop :=
  after.root = before.root ∧ after.dataBlocks = before.dataBlocks ∧
    (before.part.mounted = false → after.part.mounted = false)

theorem frameNothing : Prog.Frame MountsNothing :=
  ⟨fun _ => ⟨rfl, rfl, id⟩, fun first second => ⟨second.1.trans first.1,
    second.2.1.trans first.2.1, second.2.2 ∘ first.2.2⟩⟩

theorem partOpen_keeps (machine : Machine) (fuel : Nat) (device : Str) (partno : Nat) :
    Prog.Keeps MountsNothing (partOpen machine fuel device partno) := by
  have sector : ∀ dev offset, Prog.Keeps MountsNothing (readSector machine dev offset) := by
    intro dev offset
    refine .bind frameNothing (fun before after returned => ?_) fun answer =>
      .ite (.pure frameNothing _) (.fail frameNothing _)
    simp only [diskRead] at returned
    split at returned <;> cases returned <;> exact ⟨rfl, rfl, id⟩
  have entries : ∀ dev part secsize fuel i blocks,
      Prog.Keeps MountsNothing (readMacEntries machine dev part secsize fuel i blocks) := by
    intro dev part secsize fuel
    induction fuel with
    | zero => exact fun _ _ => .unfinished
    | succ fuel ih =>
        intro i blocks
        refine .ite (.bind frameNothing (sector dev _) fun entry => ?_) (.fail frameNothing _)
        exact .ite (.fail frameNothing _) (.ite (.pure frameNothing _) (ih _ _))
  have table : ∀ dev, Prog.Keeps MountsNothing (readTable machine fuel dev partno) := by
    intro dev
    refine .bind frameNothing (.attempt (.bind frameNothing (sector dev 0) fun _ =>
      .ite (.fail frameNothing _) (entries _ _ _ _ _ _))) fun result => ?_
    split
    · exact .pure frameNothing _
    · exact .mapError _ (.bind frameNothing (sector dev 0) fun _ =>
        .ite (.fail frameNothing _) (.ite (.fail frameNothing _) (.pure frameNothing _)))
    · exact .fail frameNothing _
  have call : ∀ device, Prog.Keeps MountsNothing (openCall machine device) := by
    intro device
    refine .bind frameNothing (.view frameNothing _) fun call => ?_
    refine .bind frameNothing (.update fun _ => ⟨rfl, rfl, id⟩) fun _ => ?_
    split
    · exact .bind frameNothing (.update fun _ => ⟨rfl, rfl, id⟩) fun _ => .pure frameNothing _
    · exact .fail frameNothing _
  have room : ∀ size, Prog.Keeps MountsNothing (malloc machine size) := by
    intro size before after returned
    simp only [malloc] at returned
    split at returned <;> cases returned <;> exact ⟨rfl, rfl, id⟩
  have find : Prog.Keeps MountsNothing (partFind machine fuel device partno) := by
    refine .bind frameNothing (.ite (.bind frameNothing (room _) fun _ => call _) (call _)) fun dev => ?_
    exact .bind frameNothing (.onError frameNothing (table dev) fun _ => ⟨rfl, rfl, id⟩) fun extent =>
      .update fun _ => ⟨rfl, rfl, id⟩
  refine .bind frameNothing (.view frameNothing _) fun part => ?_
  refine .bind frameNothing (.ite (.defined frameNothing _) (.pure frameNothing _)) fun already => ?_
  refine .ite (.pure frameNothing _) ?_
  refine .ite (.bind frameNothing ?_ fun _ => find) find
  exact .bind frameNothing (.view frameNothing _) fun _ => .update fun _ => ⟨rfl, rfl, fun _ => rfl⟩

theorem readSuper_keeps (machine : Machine) : KeepsMount (readSuper machine) := by
  refine .bind frameMount (keepsMount_of_near (readStruct_near _ _ _)) fun sblock => .ite (.fail frameMount _) ?_
  refine .bind frameMount (.update fun _ => rfl) fun _ => ?_
  exact .bind frameMount (keepsMount_of_near (readInode_near _ _)) fun _ => .pure frameMount _

/-- Everything `ext2fs_mount` does. -/
theorem mount_cases {before after : Fs} (returned : (ext2fsMount machine before).state? = some after) :
    after.part = before.part ∧
      ((ext2fsMount machine before = .ok () after ∧ after.root.isSome = true) ∨
      ∃ code, ext2fsMount machine before = .error code after ∧
        after.dataBlocks = before.dataBlocks ∧ (after.root = before.root ∨ after.root = none)) := by
  by_cases granted : machine.grants before.mallocs 352 = true
  · have room : malloc machine 352 before = .ok () { before with mallocs := before.mallocs + 1 } :=
      if_pos granted
    unfold ext2fsMount at returned ⊢
    rw [Prog.bind_run_ok room, Prog.update_bind] at returned ⊢
    have kept := readSuper_keeps machine { before with
      mallocs := before.mallocs + 1, dataBlocks := before.dataBlocks + 1 }
    cases read : readSuper machine { before with
        mallocs := before.mallocs + 1, dataBlocks := before.dataBlocks + 1 } with
    | ok data final =>
        rw [read] at kept
        obtain ⟨part, -⟩ := Prod.mk.inj (kept final rfl)
        rw [Prog.bind_run_ok (Prog.onError_run_ok read)] at returned ⊢
        cases returned
        exact ⟨part, .inl ⟨rfl, rfl⟩⟩
    | error code final =>
        rw [read] at kept
        obtain ⟨part, rest⟩ := Prod.mk.inj (kept final rfl)
        obtain ⟨-, blocks⟩ := Prod.mk.inj rest
        rw [Prog.bind_run_error (Prog.onError_run_error read)] at returned ⊢
        cases returned
        refine ⟨part, .inr ⟨code, rfl, ?_, .inr rfl⟩⟩
        simp [blocks]
    | fault =>
        rw [Prog.bind_run_fault (by simp only [Prog.onError, read])] at returned
        cases returned
    | undefined =>
        rw [Prog.bind_run_undefined (by simp only [Prog.onError, read])] at returned
        cases returned
    | unfinished =>
        rw [Prog.bind_run_unfinished (by simp only [Prog.onError, read])] at returned
        cases returned
  · have full : malloc machine 352 before =
        .error .noMem { before with mallocs := before.mallocs + 1 } := if_neg granted
    unfold ext2fsMount at returned ⊢
    rw [Prog.bind_run_error full] at returned ⊢
    cases returned
    exact ⟨rfl, .inr ⟨_, rfl, rfl, .inl rfl⟩⟩

/-- Everything `open_ext2` does when the partition is not marked as mounted. -/
theorem openExt2_cases {before after : Fs} (unmounted : before.part.mounted = false) {fuel : Nat}
    {device : Str} {partno : Nat}
    (returned : (openExt2 machine fuel device partno before).state? = some after) :
    after.part.mounted = false ∧
      ((openExt2 machine fuel device partno before = .ok () after ∧ after.root.isSome = true ∧
        OpenedAs device partno after.part) ∨
      ∃ code, openExt2 machine fuel device partno before = .error code after ∧
        after.dataBlocks = before.dataBlocks ∧ (after.root = before.root ∨ after.root = none)) := by
  rw [openExt2_unmounted unmounted] at returned ⊢
  obtain ⟨code, failed⟩ | ⟨_, opened, run, rest⟩ := Prog.bind_state?.mp returned
  · obtain ⟨root, blocks, still⟩ := partOpen_keeps machine fuel device partno before after
      (by rw [failed]; rfl)
    exact ⟨still unmounted, .inr ⟨code, Prog.bind_run_error failed, blocks, .inl root⟩⟩
  · obtain ⟨root, blocks, still⟩ := partOpen_keeps machine fuel device partno before opened
      (by rw [run]; rfl)
    obtain ⟨names, -⟩ := partOpen_eq_ok run
    rw [Prog.bind_run_ok run]
    rcases mount_cases rest with ⟨part, ⟨mounts, some'⟩ | ⟨code, fails, kept, gone⟩⟩
    · exact ⟨part ▸ still unmounted, .inl ⟨mounts, some', part ▸ names⟩⟩
    · exact ⟨part ▸ still unmounted,
        .inr ⟨code, fails, kept.trans blocks, gone.imp_left fun same => same.trans root⟩⟩

/-- A call either fails in `open_ext2` or leaves the mount that `open_ext2` makes. -/
theorem FileOp.run_cases {fuel : Nat} {op : FileOp} {before after : Fs}
    (returned : op.run machine fuel before = some after) :
    (∃ code, openExt2 machine fuel op.path.device op.path.part before = .error code after) ∨
    ∃ opened, openExt2 machine fuel op.path.device op.path.part before = .ok () opened ∧
      SameMount opened after := by
  have split : ∀ {α : Type} {rest : FsProg α}, KeepsMount rest →
      ((openExt2 machine fuel op.path.device op.path.part >>= fun _ => rest) before).state? =
        some after →
      (∃ code, openExt2 machine fuel op.path.device op.path.part before = .error code after) ∨
      ∃ opened, openExt2 machine fuel op.path.device op.path.part before = .ok () opened ∧
        SameMount opened after := by
    intro α rest kept returned
    obtain ⟨code, failed⟩ | ⟨_, opened, run, rest⟩ := Prog.bind_state?.mp returned
    · exact .inl ⟨code, failed⟩
    · exact .inr ⟨opened, run, kept opened after rest⟩
  cases op with
  | len path => exact split (open_keeps machine fuel path.path) returned
  | ls path => exact split (ls_keeps machine fuel path.path) returned
  | load path buffer =>
      obtain ⟨state, load, rfl⟩ := Option.map_eq_some_iff.mp returned
      obtain ⟨code, failed⟩ | ⟨size, ⟨opened, buffer'⟩, run, rest⟩ := Prog.bind_state?.mp load
      · obtain ⟨failed, -⟩ := Prog.onFirst_eq_error.mp failed
        have whole : fileLen machine fuel path before = .error code state.1 := failed
        have returned : (fileLen machine fuel path before).state? = some state.1 := by
          rw [whole]
          rfl
        exact split (open_keeps machine fuel path.path) returned
      · obtain ⟨run, -⟩ := Prog.onFirst_eq_ok.mp run
        obtain ⟨_, mounted, opens, lookup⟩ := Prog.bind_eq_ok.mp run
        have first := open_keeps machine fuel path.path mounted opened
          (by rw [lookup]; rfl)
        exact .inr ⟨mounted, opens, frameMount.trans first (read_keeps size _ state rest)⟩

/-- The globals, and the partition that `ext2fs_root` is the mount of. -/
structure Traced where
  fs : Fs
  mount : Option Part

/-- What `ext2fs_root` is the mount of after `open_ext2`. -/
def mountAfter (old : Option Part) : Outcome QuikErr Fs Unit → Option Part
  | .ok _ after => if after.part.mounted then old else some after.part
  | .error _ after => if after.root.isSome then old else none
  | .fault => old
  | .undefined => old
  | .unfinished => old

def Traced.after (machine : Machine) (fuel : Nat) (op : FileOp) (traced : Traced) (fs : Fs) : Traced where
  fs
  mount := mountAfter traced.mount (openExt2 machine fuel op.path.device op.path.part traced.fs)

/-- A run from start-up: the calls with the states they were made in, the last
one first, and the state they lead to. -/
inductive MountRun (machine : Machine) (fuel : Nat) : List (FileOp × Traced) → Traced → Prop
  | startUp : MountRun machine fuel [] { fs := .startUp, mount := none }
  | call {calls : List (FileOp × Traced)} {traced : Traced} {fs : Fs} (op : FileOp)
      (run : MountRun machine fuel calls traced) (returned : op.run machine fuel traced.fs = some fs) :
      MountRun machine fuel ((op, traced) :: calls) (traced.after machine fuel op fs)

/-- `ext2fs_root` is the mount of the partition that is open. -/
def Traced.MountedHere (traced : Traced) : Prop :=
  traced.fs.root.isSome = true ∧ traced.fs.part.valid = true ∧ ∃ part, traced.mount = some part ∧
    part.devname = traced.fs.part.devname ∧ part.partno = traced.fs.part.partno ∧
    part.start = traced.fs.part.start ∧ part.len = traced.fs.part.len

/-- The flag, the mount and the heap are in step. -/
structure Traced.InStep (traced : Traced) : Prop where
  flag : traced.fs.part.mounted = true ↔ traced.MountedHere
  blocks : traced.fs.dataBlocks ≤ 1

/-- `open_ext2` calls `ext2fs_mount`. -/
def MountsAnew (machine : Machine) (fuel : Nat) (op : FileOp) (fs : Fs) : Prop :=
  ∃ opened, partOpen machine fuel op.path.device op.path.part fs = .ok () opened ∧
    opened.part.mounted = false

/-- Every state of a run is in step, and no call mounts a partition again that is
open and mounted. -/
structure RunInStep (machine : Machine) (fuel : Nat) (calls : List (FileOp × Traced))
    (traced : Traced) : Prop where
  last : traced.InStep
  states : ∀ call ∈ calls, call.2.InStep
  once : ∀ call ∈ calls, call.2.MountedHere → OpenedAs call.1.path.device call.1.path.part
    call.2.fs.part → ¬MountsAnew machine fuel call.1 call.2.fs

/-- No call of a run gets through `open_ext2`. -/
def MountsNone (machine : Machine) (fuel : Nat) (calls : List (FileOp × Traced)) : Prop :=
  ∀ call ∈ calls, ∀ after,
    openExt2 machine fuel call.1.path.device call.1.path.part call.2.fs ≠ .ok () after

theorem MountRun.unmounted {fuel : Nat} {calls : List (FileOp × Traced)} {traced : Traced}
    (run : MountRun machine fuel calls traced) : traced.fs.part.mounted = false := by
  induction run with
  | startUp => rfl
  | @call calls traced fs op run returned unmounted =>
      change fs.part.mounted = false
      rcases FileOp.run_cases returned with ⟨code, failed⟩ | ⟨opened, opens, same⟩
      · exact (openExt2_cases unmounted (by rw [failed]; rfl)).1
      · rw [(Prod.mk.inj same).1]
        exact (openExt2_cases unmounted (by rw [opens]; rfl)).1

/-- A call that gets through `open_ext2` leaves a mount that the flag does not
show. -/
theorem MountRun.out_of_step {fuel : Nat} {calls : List (FileOp × Traced)} {traced : Traced}
    (run : MountRun machine fuel calls traced) {op : FileOp} {opened fs : Fs}
    (opens : openExt2 machine fuel op.path.device op.path.part traced.fs = .ok () opened)
    (same : SameMount opened fs) : ¬(traced.after machine fuel op fs).InStep := by
  intro step
  obtain ⟨part, rest⟩ := Prod.mk.inj same
  obtain ⟨root, -⟩ := Prod.mk.inj rest
  have returned : (openExt2 machine fuel op.path.device op.path.part traced.fs).state? =
      some opened := by
    rw [opens]
    rfl
  obtain ⟨unmounted, known⟩ := openExt2_cases run.unmounted returned
  rcases known with ⟨-, some', names⟩ | ⟨code, failed, -⟩
  · have here : (traced.after machine fuel op fs).MountedHere := by
      refine ⟨?_, ?_, opened.part, ?_, ?_⟩
      · exact root ▸ some'
      · exact part ▸ names.valid
      · simp [Traced.after, opens, mountAfter, unmounted]
      · simp [Traced.after, part]
    have flag := step.flag.mpr here
    simp [Traced.after, part, unmounted] at flag
  · rw [opens] at failed
    cases failed

/-- What a run without a mount leaves. -/
theorem MountRun.none_left {fuel : Nat} {calls : List (FileOp × Traced)} {traced : Traced}
    (run : MountRun machine fuel calls traced) (none' : MountsNone machine fuel calls) :
    traced.fs.root = none ∧ traced.fs.dataBlocks = 0 := by
  induction run with
  | startUp => exact ⟨rfl, rfl⟩
  | @call calls traced fs op run returned ih =>
      obtain ⟨root, blocks⟩ := ih fun call mem => none' call (List.mem_cons_of_mem _ mem)
      rcases FileOp.run_cases returned with ⟨code, failed⟩ | ⟨opened, opens, same⟩
      · have fails : (openExt2 machine fuel op.path.device op.path.part traced.fs).state? =
            some fs := by
          rw [failed]
          rfl
        obtain ⟨-, known⟩ := openExt2_cases run.unmounted fails
        rcases known with ⟨opens, -⟩ | ⟨_, -, kept, same | gone⟩
        · exact absurd opens (none' _ List.mem_cons_self fs)
        · exact ⟨same.trans root, kept.trans blocks⟩
        · exact ⟨gone, kept.trans blocks⟩
      · exact absurd opens (none' _ List.mem_cons_self opened)

theorem MountRun.inStep {fuel : Nat} {calls : List (FileOp × Traced)} {traced : Traced}
    (run : MountRun machine fuel calls traced) (none' : MountsNone machine fuel calls) :
    traced.InStep ∧ ¬traced.MountedHere := by
  obtain ⟨root, blocks⟩ := run.none_left none'
  have elsewhere : ¬traced.MountedHere := fun here => by
    have some' := here.1
    simp [root] at some'
  refine ⟨⟨?_, by omega⟩, elsewhere⟩
  rw [run.unmounted]
  exact iff_of_false Bool.false_ne_true elsewhere

/-- A run is in step exactly when it mounts nothing. -/
theorem mounts_inStep_iff {fuel : Nat} {calls : List (FileOp × Traced)} {traced : Traced}
    (run : MountRun machine fuel calls traced) :
    RunInStep machine fuel calls traced ↔ MountsNone machine fuel calls := by
  induction run with
  | startUp =>
      refine iff_of_true ⟨?_, ?_, ?_⟩ ?_
      · have start : MountRun machine fuel [] { fs := .startUp, mount := none } := .startUp
        exact (start.inStep (by simp [MountsNone])).1
      · simp
      · simp
      · simp [MountsNone]
  | @call calls traced fs op run returned ih =>
      constructor
      · intro steps
        have before : MountsNone machine fuel calls := ih.mp
          ⟨steps.states _ List.mem_cons_self, fun call mem => steps.states _ (List.mem_cons_of_mem _ mem),
            fun call mem => steps.once _ (List.mem_cons_of_mem _ mem)⟩
        intro call mem after opens
        rcases List.mem_cons.mp mem with rfl | mem
        · rcases FileOp.run_cases returned with ⟨code, failed⟩ | ⟨opened, opens', same⟩
          · rw [failed] at opens
            cases opens
          · exact run.out_of_step opens' same steps.last
        · exact before call mem after opens
      · intro none'
        have before : MountsNone machine fuel calls := fun call mem =>
          none' call (List.mem_cons_of_mem _ mem)
        have tail := ih.mpr before
        obtain ⟨step, elsewhere⟩ := run.inStep before
        refine ⟨((run.call op returned).inStep none').1, ?_, ?_⟩
        · intro call mem
          rcases List.mem_cons.mp mem with rfl | mem
          · exact step
          · exact tail.states call mem
        · intro call mem here
          rcases List.mem_cons.mp mem with rfl | mem
          · exact absurd here elsewhere
          · exact tail.once call mem here

/-- A mount that the flag does not show, after one call. -/
theorem mounts_not_inStep :
    ¬∀ (machine : Machine) (fuel : Nat) (calls : List (FileOp × Traced)) (traced : Traced),
      MountRun machine fuel calls traced → RunInStep machine fuel calls traced := by
  intro inStep
  have opens : (openExt2 (diskMachine shortFile) 20 (str "hd") 1 .startUp).success?.isSome = true := by
    decide +kernel
  have returns : ((FileOp.len (sampleFile 1)).run (diskMachine shortFile) 20 .startUp).isSome = true := by
    decide +kernel
  obtain ⟨opened, opens⟩ := Option.isSome_iff_exists.mp opens
  obtain ⟨_, opens⟩ := Outcome.success?_eq_some.mp opens
  obtain ⟨fs, returns⟩ := Option.isSome_iff_exists.mp returns
  have start : MountRun (diskMachine shortFile) 20 [] { fs := .startUp, mount := none } := .startUp
  rcases FileOp.run_cases returns with ⟨code, failed⟩ | ⟨opened', opens', same⟩
  · exact absurd (opens.symm.trans failed) (by simp)
  · exact start.out_of_step opens' same (inStep _ _ _ _ (start.call _ returns)).last

/-- A firmware that knows no device. -/
def noDevices : Machine where
  openDevice _ _ := none
  read _ _ _ _ := { count := 0, bytes := fun _ => 0 }
  grants _ _ := true
  nwFullDisk := false

/-- A call that finds no device mounts nothing. -/
theorem mounts_inStep_sample : ∃ calls traced, calls ≠ [] ∧
    RunInStep noDevices 20 calls traced := by
  have fails : ((openExt2 noDevices 20 (str "hd") 1 .startUp).code? == some .ofOpen) = true := by
    decide +kernel
  have returns : ((FileOp.len (sampleFile 1)).run noDevices 20 .startUp).isSome = true := by
    decide +kernel
  obtain ⟨fs, returns⟩ := Option.isSome_iff_exists.mp returns
  refine ⟨_, _, ?_, (mounts_inStep_iff (.call (.len (sampleFile 1)) .startUp returns)).mpr ?_⟩
  · simp
  · intro call mem after opens
    obtain rfl := List.mem_singleton.mp mem
    change openExt2 noDevices 20 (str "hd") 1 .startUp = .ok () after at opens
    rw [opens] at fails
    cases fails

end IQuik.Ext2
