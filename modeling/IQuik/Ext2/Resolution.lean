import IQuik.Ext2.Directories
import IQuik.Ext2.Endings
import IQuik.Program.Exits
import IQuik.Program.Traces

namespace IQuik.Ext2

open IQuik.Data IQuik.Program IQuik.Storage

/-! # How a path is resolved

The lookup of a path once more, with a record of what its nested calls do: which
step failed, and where, how many targets of symlinks were read, and how deep the
calls are.
-/

/-- A step of a lookup that failed: in the path that was given, or in the target
of a symlink. A lookup is given up at the eighth target, or in the ninth of the
calls inside one another. -/
inductive Failure where
  | here (code : QuikErr)
  | inside (failure : Failure)
  | overrun
deriving DecidableEq

namespace Failure

/-- The error of the step that failed. -/
def code? : Failure → Option QuikErr
  | here code => some code
  | inside failure => failure.code?
  | overrun => none

def Lost (failure : Failure) : Prop := failure.code? = none

/-- The error that `ext2fs_find_file1` hands on. -/
def reported : Failure → QuikErr
  | here code => code
  | inside _ => .fsNotFound
  | overrun => .fsNotFound

/-- The error handed on is that of the step that failed, in the given path, and
behind a symlink if it happens to be `ERR_FS_NOT_FOUND`. -/
theorem reported_iff {failure : Failure} {code : QuikErr} (step : failure.code? = some code) :
    failure.reported = code ↔ failure = .here code ∨ code = .fsNotFound := by
  cases failure with
  | here failed =>
      obtain rfl : failed = code := Option.some.inj step
      exact iff_of_true rfl (.inl rfl)
  | inside failure =>
      constructor
      · intro same
        exact .inr same.symm
      · rintro (same | same)
        · cases same
        · exact same.symm
  | overrun => cases step

end Failure

/-- The second component of the state counts the targets that were read. -/
abbrev TraceProg := Prog Failure (Fs × Nat)

variable (machine : Machine)

/-- A step on the volume. -/
def onVolume {α : Type} (program : FsProg α) : TraceProg α := Prog.onFirst (Prog.recode .here program)

/-- `enterPath`, in the call with the number `calls`. -/
def resolvePath (loop : Str → Node → TraceProg (Node × Option FileType)) (calls : Nat) (currpath : Str)
    (currroot : Node) : TraceProg (Node × Option FileType) :=
  if 8 < calls then Prog.fail .overrun
  else
    match currpath.dropWhile (· = 47) with
    | [] => pure (currroot, none)
    | name => loop name currroot

def readTarget (currnode : Node) : TraceProg Str := do
  if 7 ≤ (← Prog.view Prod.snd) then Prog.fail .overrun
  else do
    Prog.update fun state => (state.1, state.2 + 1)
    onVolume (ext2fsReadSymlink machine currnode)

/-- Looks up the target of the symlink `currnode`. -/
def resolveTarget (find : Str → Node → TraceProg (Node × Option FileType)) (currnode oldnode : Node) :
    TraceProg (Node × FileType) := do
  let symlink ← readTarget machine currnode
  let root ← onVolume (targetRoot oldnode symlink)
  let found ← Prog.mapError .inside (find symlink root)
  pure (found.1, found.2.getD .symlink)

/-- `followSymlink`. -/
def resolveSymlink (find : Str → Node → TraceProg (Node × Option FileType)) (currnode oldnode : Node) :
    TraceProg (Node × FileType) := do
  onVolume (Prog.update fun fs => { fs with symlinknest := fs.symlinknest + 1 })
  if (← onVolume (Prog.view Fs.symlinknest)) = 8 then Prog.fail (.here .fsLoop)
  else resolveTarget machine find currnode oldnode

/-- `goOn`. -/
def resolveRest (loop : Str → TraceProg (Node × Option FileType)) (next : Option Str) (currnode : Node)
    (type : FileType) : TraceProg (Node × Option FileType) :=
  match next with
  | none => pure (currnode, some type)
  | some [] => pure (currnode, some type)
  | some name => loop name

/-- `findLoop`. -/
def resolveLoop : (fuel calls : Nat) → (name : Str) → (currnode : Node) → (type : FileType) →
    TraceProg (Node × Option FileType)
  | 0, _, _, _, _ => Prog.unfinished
  | fuel + 1, calls, name, currnode, type =>
      if type ≠ .directory then Prog.fail (.here .fsNotDir)
      else do
        let entry ← onVolume (ext2fsIterateDir machine fuel currnode (some (splitName name).1))
        let node ← show TraceProg (Node × FileType) from
          if entry.2 = .symlink then
            resolveSymlink machine
              (resolvePath (fun name root => resolveLoop fuel (calls + 1) name root .directory) (calls + 1))
              entry.1 currnode
          else pure entry
        resolveRest (fun next => resolveLoop fuel calls next node.1 node.2) (splitName name).2 node.1 node.2

/-- `ext2fs_find_file1`. The call from `ext2fs_find_file` has the number 1. -/
def resolve (fuel calls : Nat) (currpath : Str) (currroot : Node) : TraceProg (Node × Option FileType) :=
  resolvePath (fun name root => resolveLoop machine fuel calls name root .directory) calls currpath currroot

variable {machine : Machine}

section Erasure

/-- Without its record a program that is not given up is the one of the source. -/
abbrev Records {α : Type} (traced : TraceProg α) (plain : FsProg α) : Prop :=
  Prog.Traces Failure.Lost Failure.reported Prod.fst traced plain

theorem onVolume_records {α : Type} (plain : FsProg α) : Records (onVolume plain) plain :=
  .step fun _ => rfl

theorem readTarget_records (node : Node) : Records (readTarget machine node) (ext2fsReadSymlink machine node) := by
  intro state
  unfold readTarget
  rw [Prog.view_bind]
  split
  · exact .inl rfl
  · rw [Prog.update_bind]
    exact onVolume_records (ext2fsReadSymlink machine node) (state.1, state.2 + 1)

theorem resolvePath_records {loop : Str → Node → TraceProg (Node × Option FileType)}
    {plain : Str → Node → FsProg (Node × Option FileType)} (records : ∀ name root, Records (loop name root) (plain name root))
    (calls : Nat) (path : Str) (root : Node) : Records (resolvePath loop calls path root) (enterPath plain path root) := by
  unfold resolvePath
  split
  · exact .giveUp rfl
  unfold enterPath
  generalize path.dropWhile (· = 47) = rest
  cases rest with
  | nil => exact .pure _
  | cons c rest => exact records _ _

theorem resolveRest_records {loop : Str → TraceProg (Node × Option FileType)}
    {plain : Str → FsProg (Node × Option FileType)} (records : ∀ name, Records (loop name) (plain name))
    (next : Option Str) (node : Node) (type : FileType) :
    Records (resolveRest loop next node type) (goOn plain next node type) := by
  cases next with
  | none => exact .pure _
  | some name =>
      cases name with
      | nil => exact .pure _
      | cons c name => exact records _

theorem resolveSymlink_records {find : Str → Node → TraceProg (Node × Option FileType)}
    {plain : Str → Node → FsProg (Node × Option FileType)} (records : ∀ path root, Records (find path root) (plain path root))
    (currnode oldnode : Node) :
    Records (resolveSymlink machine find currnode oldnode) (followSymlink machine plain currnode oldnode) := by
  rw [followSymlink_eq]
  refine .bind (onVolume_records _) fun _ => .bind (onVolume_records _) fun nest => ?_
  refine .ite (.fail rfl) (.bind (readTarget_records _) fun symlink => ?_)
  refine .bind (onVolume_records _) fun root => .bind ?_ fun found => .pure _
  exact .mapError (records symlink root) (fun _ lost => lost) fun _ => rfl

theorem resolveLoop_records (fuel calls : Nat) (name : Str) (currnode : Node) (type : FileType) :
    Records (resolveLoop machine fuel calls name currnode type) (findLoop machine fuel name currnode type) := by
  induction fuel generalizing calls name currnode type with
  | zero => exact .unfinished
  | succ fuel ih =>
      rw [findLoop_eq]
      refine .ite (.fail rfl) (.bind (onVolume_records _) fun entry => .bind (.ite ?_ (.pure _)) fun node => ?_)
      · have target := resolvePath_records (fun name root => ih (calls + 1) name root .directory) (calls + 1)
        exact resolveSymlink_records target _ _
      · exact resolveRest_records (fun next => ih _ next _ _) _ _ _

theorem resolve_records (fuel calls : Nat) (path : Str) (root : Node) :
    Records (resolve machine fuel calls path root) (ext2fsFindFile1 machine fuel path root) :=
  resolvePath_records (fun name root => resolveLoop_records fuel calls name root _) calls path root

end Erasure

section Limits

/-- A scan of `dir` finds a symlink, and its target is read. -/
def Links (machine : Machine) (dir : Node) (before : Fs) (target : Str) (after : Fs) : Prop :=
  ∃ fuel name link middle,
    ext2fsIterateDir machine fuel dir (some name) before = .ok (link, .symlink) middle ∧
    middle.symlinknest + 1 ≠ 8 ∧
    ext2fsReadSymlink machine link { middle with symlinknest := middle.symlinknest + 1 } = .ok target after

/-- The directories that a lookup from `rootnode` can come to, each in the state
in which it does. -/
inductive Comes (machine : Machine) (rootnode : Node) (start : Fs) : Node → Fs → Prop
  | path : Comes machine rootnode start rootnode start
  | down {dir node : Node} {before after : Fs} {fuel : Nat} {name : Str}
      (comes : Comes machine rootnode start dir before)
      (found : ext2fsIterateDir machine fuel dir (some name) before = .ok (node, .directory) after) :
      Comes machine rootnode start node after
  | beside {dir : Node} {before after : Fs} {target : Str} (comes : Comes machine rootnode start dir before)
      (links : Links machine dir before target after) (relative : target.head? ≠ some 47) :
      Comes machine rootnode start dir after
  | top {dir : Node} {before after : Fs} {target : Str} {data : Ext2Data}
      (comes : Comes machine rootnode start dir before) (links : Links machine dir before target after)
      (absolute : target.head? = some 47) (mounted : after.root = some data) :
      Comes machine rootnode start data.diropen after

variable {rootnode dir root : Node} {start before after final : Fs} {target : Str} {calls : Nat}

theorem Links.symlinknest (links : Links machine dir before target after) :
    after.symlinknest = before.symlinknest + 1 := by
  obtain ⟨fuel, name, link, middle, found, -, read⟩ := links
  have scanned := (iterateDir_near fuel dir (some name) before middle (by rw [found]; rfl)).symlinknest
  have kept := (readSymlink_near link _ after (by rw [read]; rfl)).symlinknest
  exact kept.trans (congrArg (· + 1) scanned)

theorem targetRoot_comes (comes : Comes machine rootnode start dir before)
    (links : Links machine dir before target after) (chosen : targetRoot dir target after = .ok root final) :
    final = after ∧ Comes machine rootnode start root after := by
  unfold targetRoot at chosen
  split at chosen
  · obtain ⟨mounted, middle, view, chosen⟩ := Prog.bind_eq_ok.mp chosen
    cases view
    cases known : after.root with
    | none => rw [known] at chosen; cases chosen
    | some data =>
        rw [known] at chosen
        cases chosen
        exact ⟨rfl, .top comes links ‹_› known⟩
  · cases chosen
    exact ⟨rfl, .beside comes links ‹_›⟩

/-- The counter of the source counts the targets, and the calls in one another
are at most one more. -/
structure Within (calls : Nat) (state : Fs × Nat) : Prop where
  counted : state.1.symlinknest = state.2
  few : state.2 ≤ 7
  nested : calls ≤ state.2 + 1

/-- No lookup is given up. -/
def Completes (failure : Failure) (_ : Fs × Nat) : Prop := failure.code? ≠ none

theorem onVolume_exits {α : Type} {pre : Fs × Nat → Prop} (program : FsProg α) :
    Prog.Exits True pre (onVolume program)
      (fun value after => ∃ before, pre (before, after.2) ∧ program before = .ok value after.1) Completes := by
  rintro ⟨fs, reads⟩ known
  unfold onVolume Prog.onFirst Prog.recode
  cases run : program fs with
  | ok value after => exact ⟨fs, known, run⟩
  | error code after => exact Option.some_ne_none code
  | fault => trivial
  | undefined => trivial
  | unfinished => trivial

/-- A lookup that starts in directories it comes to. -/
abbrev ResolvesFrom (machine : Machine) (rootnode : Node) (start : Fs) (calls : Nat) (type : FileType)
    (node : Node) (program : TraceProg (Node × Option FileType)) : Prop :=
  Prog.Exits True (fun state => Within calls state ∧ (type = .directory → Comes machine rootnode start node state.1))
    program
    (fun found after => Within calls after ∧
      (found.2 = some .directory → Comes machine rootnode start found.1 after.1)) Completes

theorem resolvePath_exits {loop : Str → Node → TraceProg (Node × Option FileType)}
    (resolves : ∀ name root, ResolvesFrom machine rootnode start calls .directory root (loop name root))
    (path : Str) (root : Node) :
    ResolvesFrom machine rootnode start calls .directory root (resolvePath loop calls path root) := by
  intro state known
  have shallow : ¬8 < calls := by
    have few := known.1.few
    have nested := known.1.nested
    omega
  unfold resolvePath
  rw [if_neg shallow]
  generalize path.dropWhile (· = 47) = rest
  cases rest with
  | nil => exact ⟨known.1, nofun⟩
  | cons c rest => exact resolves _ root state known

theorem resolveSymlink_exits {find : Str → Node → TraceProg (Node × Option FileType)}
    (resolves : ∀ path root, ResolvesFrom machine rootnode start (calls + 1) .directory root (find path root))
    (currnode oldnode : Node) :
    Prog.Exits True
      (fun state => Within calls state ∧ ∃ before fuel name, Comes machine rootnode start oldnode before ∧
        ext2fsIterateDir machine fuel oldnode (some name) before = .ok (currnode, .symlink) state.1)
      (resolveSymlink machine find currnode oldnode)
      (fun node after => Within calls after ∧
        (node.2 = .directory → Comes machine rootnode start node.1 after.1)) Completes := by
  rintro ⟨fs, reads⟩ ⟨within, before, fuel, name, comes, found⟩
  have counted : fs.symlinknest = reads := within.counted
  have few : reads ≤ 7 := within.few
  have nested : calls ≤ reads + 1 := within.nested
  let next : Fs := { fs with symlinknest := fs.symlinknest + 1 }
  have run : resolveSymlink machine find currnode oldnode (fs, reads) =
      (if fs.symlinknest + 1 = 8 then Prog.fail (Failure.here .fsLoop)
        else resolveTarget machine find currnode oldnode) (next, reads) := rfl
  rw [run]
  by_cases eighth : fs.symlinknest + 1 = 8
  · rw [if_pos eighth]
    exact Option.some_ne_none _
  rw [if_neg eighth]
  -- the target is at most the seventh one
  have read : Prog.Exits True (fun state => state = (next, reads)) (readTarget machine currnode)
      (fun target after => Links machine oldnode before target after.1 ∧ after.2 = reads + 1) Completes := by
    rintro state rfl
    unfold readTarget
    rw [Prog.view_bind, if_neg (by dsimp only; omega), Prog.update_bind]
    have step : Prog.Exits True (fun state => state = (next, reads + 1)) _ _ _ :=
      onVolume_exits (ext2fsReadSymlink machine currnode)
    refine step.conseq (fun _ same => same) ?_ (fun _ _ kept => kept) _ rfl
    rintro target ⟨after, count⟩ ⟨middle, same, run⟩
    obtain ⟨rfl, rfl⟩ := Prod.mk.inj same
    exact ⟨⟨fuel, name, currnode, fs, found, eighth, run⟩, rfl⟩
  refine Prog.Exits.bind read (fun target => ?_) _ rfl
  refine .bind (onVolume_exits _) fun root => ?_
  refine .bind (.mapError ((resolves target root).conseq ?_ (fun _ _ known => known) fun _ _ kept => kept)) fun found => ?_
  · rintro ⟨after, count⟩ ⟨middle, ⟨links, same⟩, chosen⟩
    obtain rfl : count = reads + 1 := same
    obtain ⟨unchanged, comes⟩ := targetRoot_comes comes links chosen
    obtain rfl : after = middle := unchanged
    have scanned := (iterateDir_near fuel oldnode (some name) before fs (by rw [found]; rfl)).symlinknest
    have nest : after.symlinknest = before.symlinknest + 1 := links.symlinknest
    exact ⟨⟨by dsimp only; omega, by dsimp only; omega, by dsimp only; omega⟩, fun _ => comes⟩
  · refine .pure fun after known => ⟨⟨known.1.counted, known.1.few, Nat.le_of_succ_le known.1.nested⟩, ?_⟩
    obtain ⟨node, type⟩ := found
    intro directory
    cases type with
    | none => cases directory
    | some type =>
        obtain rfl : type = .directory := directory
        exact known.2 rfl

theorem resolveLoop_exits (fuel calls : Nat) (name : Str) (currnode : Node) (type : FileType) :
    ResolvesFrom machine rootnode start calls type currnode (resolveLoop machine fuel calls name currnode type) := by
  induction fuel generalizing calls name currnode type with
  | zero => exact .unfinished
  | succ fuel ih =>
      by_cases directory : type = .directory
      swap
      · intro state _
        rw [resolveLoop, if_pos directory]
        exact Option.some_ne_none _
      subst directory
      -- a scan leaves the counter as it is
      have scan : Prog.Exits True
          (fun state => Within calls state ∧ (.directory = FileType.directory → Comes machine rootnode start currnode state.1))
          (onVolume (ext2fsIterateDir machine fuel currnode (some (splitName name).1)))
          (fun entry after => Within calls after ∧ ∃ before, Comes machine rootnode start currnode before ∧
            ext2fsIterateDir machine fuel currnode (some (splitName name).1) before = .ok entry after.1) Completes := by
        refine (onVolume_exits _).conseq (fun _ known => known) ?_ fun _ _ kept => kept
        rintro entry after ⟨before, ⟨within, comes⟩, found⟩
        have kept := (iterateDir_near _ _ _ before after.1 (by rw [found]; rfl)).symlinknest
        exact ⟨⟨kept.trans within.counted, within.few, within.nested⟩, before, comes rfl, found⟩
      refine .bind scan fun entry => ?_
      have follow : Prog.Exits True
          (fun after => Within calls after ∧ ∃ before, Comes machine rootnode start currnode before ∧
            ext2fsIterateDir machine fuel currnode (some (splitName name).1) before = .ok entry after.1)
          (if entry.2 = .symlink then
            resolveSymlink machine
              (resolvePath (fun name root => resolveLoop machine fuel (calls + 1) name root .directory) (calls + 1))
              entry.1 currnode
          else pure entry)
          (fun node after => Within calls after ∧
            (node.2 = .directory → Comes machine rootnode start node.1 after.1)) Completes := by
        obtain ⟨node, type⟩ := entry
        refine .ite (fun link => ?_) fun _ => .pure ?_
        · obtain rfl : type = .symlink := link
          refine (resolveSymlink_exits (resolvePath_exits fun name root => ih (calls + 1) name root _) node
            currnode).conseq ?_ (fun _ _ known => known) fun _ _ kept => kept
          rintro after ⟨within, before, comes, found⟩
          exact ⟨within, before, fuel, _, comes, found⟩
        · rintro after ⟨within, before, comes, found⟩
          refine ⟨within, fun directory => ?_⟩
          obtain rfl : type = .directory := directory
          exact .down comes found
      refine .bind follow fun node => ?_
      generalize (splitName name).2 = next
      have ends : ∀ after, Within calls after ∧ (node.2 = .directory → Comes machine rootnode start node.1 after.1) →
          Within calls after ∧ (some node.2 = some .directory → Comes machine rootnode start node.1 after.1) :=
        fun after known => ⟨known.1, fun directory => known.2 (Option.some.inj directory)⟩
      cases next with
      | none => exact .pure ends
      | some next =>
          cases next with
          | nil => exact .pure ends
          | cons c next => exact ih calls (c :: next) node.1 node.2

theorem resolve_exits (fuel calls : Nat) (path : Str) (root : Node) :
    ResolvesFrom machine rootnode start calls .directory root (resolve machine fuel calls path root) :=
  resolvePath_exits (fun name root => resolveLoop_exits fuel calls name root .directory) path root

end Limits

section Termination

variable {rootnode node root : Node} {start fs after : Fs} {type : FileType} {name : Str}

/-- Each scan of a directory that the lookup comes to ends. -/
def ScansEnd (machine : Machine) (rootnode : Node) (start : Fs) : Prop :=
  ∀ dir name fs, Comes machine rootnode start dir fs →
    ∃ fuel, ext2fsIterateDir machine fuel dir (some name) fs ≠ .unfinished

theorem splitName_shorter {next : Str} (rest : (splitName name).2 = some next) : next.length < name.length := by
  unfold splitName at rest
  have shorter : (name.dropWhile (· ≠ 47)).length ≤ name.length := (List.dropWhile_suffix _).length_le
  cases behind : name.dropWhile (· ≠ 47) with
  | nil =>
      simp only [behind] at rest
      cases rest
  | cons c tail =>
      have slash : c = 47 := by
        have stopped := List.head?_dropWhile_not (fun c : UInt8 => decide (c ≠ 47)) name
        rw [behind] at stopped
        simpa using stopped
      simp only [behind] at rest
      obtain rfl : (c :: tail).dropWhile (· = 47) = next := Option.some.inj rest
      rw [List.dropWhile_cons_of_pos (by simp [slash])]
      have less : (tail.dropWhile (· = 47)).length ≤ tail.length := (List.dropWhile_suffix _).length_le
      rw [behind, List.length_cons] at shorter
      omega

theorem result_of_ok {α : Type} {traced : TraceProg α} {plain : FsProg α} {pre : Fs × Nat → Prop}
    {post : α → Fs × Nat → Prop} {value : α} {reads : Nat} (records : Records traced plain)
    (exits : Prog.Exits True pre traced post Completes) (known : pre (fs, reads))
    (run : plain fs = .ok value after) : ∃ count, post value (after, count) := by
  have step := records (fs, reads)
  have ends := exits (fs, reads) known
  dsimp only at step
  rw [run] at step
  cases traced_run : traced (fs, reads) with
  | ok result final =>
      rw [traced_run] at step ends
      cases step
      exact ⟨final.2, ends⟩
  | error failure final =>
      rw [traced_run] at step ends
      obtain lost | failed := step
      · exact absurd lost ends
      · cases failed
  | fault => rw [traced_run] at step; cases step
  | undefined => rw [traced_run] at step; cases step
  | unfinished => rw [traced_run] at step; cases step

theorem findFile1_finishes {path : Str}
    (finishes : ∀ name, Prog.Finishes (fun fuel => findLoop machine fuel name root .directory) fs) :
    Prog.Finishes (fun fuel => ext2fsFindFile1 machine fuel path root) fs := by
  unfold ext2fsFindFile1 enterPath
  generalize path.dropWhile (· = 47) = rest
  cases rest with
  | nil => exact .const nofun
  | cons c rest => exact finishes _

/-- A later lookup: the counter has gone up, or the path has got shorter. -/
def Nearer (fs : Fs) (name : Str) (after : Fs) (next : Str) : Prop :=
  after.symlinknest ≤ 7 ∧
    (fs.symlinknest < after.symlinknest ∨ fs.symlinknest ≤ after.symlinknest ∧ next.length < name.length)

section Step

variable {fuel : Nat} {component : Str} {entry : Node} {middle : Fs}
  (found : ext2fsIterateDir machine fuel node (some component) fs = .ok (entry, .symlink) middle)
  (few : fs.symlinknest ≤ 7) (comes : Comes machine rootnode start node fs)
include found few comes

/-- What following a symlink leaves of the counter, and where it ends. -/
theorem followSymlink_ok {fuel : Nat} {target : Node × FileType}
    (run : followSymlink machine (ext2fsFindFile1 machine fuel) entry node middle = .ok target after) :
    fs.symlinknest ≤ after.symlinknest ∧ after.symlinknest ≤ 7 ∧
      (target.2 = .directory → Comes machine rootnode start target.1 after) := by
  have kept := (iterateDir_near _ _ _ fs middle (by rw [found]; rfl)).symlinknest
  have records : Records (resolveSymlink machine (resolve machine fuel (fs.symlinknest + 2)) entry node)
      (followSymlink machine (ext2fsFindFile1 machine fuel) entry node) :=
    resolveSymlink_records (resolve_records fuel _) entry node
  obtain ⟨count, within, ends⟩ := result_of_ok records
    (resolveSymlink_exits (resolve_exits fuel (fs.symlinknest + 2)) entry node)
    ⟨⟨kept, few, le_rfl⟩, fs, _, component, comes, found⟩ run
  have counted := within.counted
  have limit := within.few
  have nested := within.nested
  dsimp only at counted limit nested ends
  exact ⟨by omega, by omega, ends⟩

theorem followSymlink_finishes
    (later : ∀ path root after, fs.symlinknest < after.symlinknest → after.symlinknest ≤ 7 →
      Comes machine rootnode start root after →
      Prog.Finishes (fun fuel => ext2fsFindFile1 machine fuel path root) after) :
    Prog.Finishes (fun fuel => followSymlink machine (ext2fsFindFile1 machine fuel) entry node) middle := by
  have kept := (iterateDir_near _ _ _ fs middle (by rw [found]; rfl)).symlinknest
  let next : Fs := { middle with symlinknest := middle.symlinknest + 1 }
  have run : ∀ fuel, followSymlink machine (ext2fsFindFile1 machine fuel) entry node middle =
      (if next.symlinknest = 8 then Prog.fail .fsLoop
        else ext2fsReadSymlink machine entry >>= fun symlink => targetRoot node symlink >>= fun root =>
          Prog.mapError (fun _ => .fsNotFound) (ext2fsFindFile1 machine fuel symlink root) >>= fun found =>
            pure (found.1, found.2.getD .symlink)) next := by
    intro fuel
    rw [followSymlink_eq, Prog.update_bind, Prog.view_bind]
  refine .congr ?_ run
  refine .ite (fun _ => .const nofun) fun eighth => ?_
  refine .bind (.const _) (.const (readSymlink_ends entry next)) ?_
  rintro symlink after ⟨-, read⟩
  have links : Links machine node fs symlink after := ⟨_, component, entry, middle, found, eighth, read⟩
  refine .bind (.const _) (.const (targetRoot_ends node symlink after)) ?_
  rintro root final ⟨-, chosen⟩
  obtain ⟨rfl, comes⟩ := targetRoot_comes comes links chosen
  have nest : final.symlinknest = fs.symlinknest + 1 := links.symlinknest
  have seventh : middle.symlinknest + 1 ≠ 8 := eighth
  have find := later symlink root final (by omega) (by omega) comes
  refine .bind ?_ (.mapError _ find) fun found after _ => .const nofun
  exact fun small large more => .mapError _ (findFile1_grows symlink root small large more)

end Step

/-- A lookup ends if those ends that come later. -/
theorem findLoop_step (scans : ScansEnd machine rootnode start) (few : fs.symlinknest ≤ 7)
    (comes : type = .directory → Comes machine rootnode start node fs)
    (later : ∀ next node type after, Nearer fs name after next →
      (type = .directory → Comes machine rootnode start node after) →
      Prog.Finishes (fun fuel => findLoop machine fuel next node type) after) :
    Prog.Finishes (fun fuel => findLoop machine fuel name node type) fs := by
  refine .of_succ ?_
  by_cases directory : type = .directory
  swap
  · simp only [findLoop_eq, if_pos directory]
    exact .const nofun
  subst directory
  simp only [findLoop_eq]
  refine .ite (fun other => absurd rfl other) fun _ => ?_
  obtain ⟨fuel, ends⟩ := scans node (splitName name).1 fs (comes rfl)
  refine .bind (iterateDir_grows node _) (.of_grows (iterateDir_grows node _) ends) ?_
  rintro ⟨entry, kind⟩ middle ⟨fuel, found⟩
  have kept := (iterateDir_near _ _ _ fs middle (by rw [found]; rfl)).symlinknest
  -- how the loop goes on with the path behind this component
  have rest : ∀ node kind after, fs.symlinknest ≤ after.symlinknest → after.symlinknest ≤ 7 →
      (kind = .directory → Comes machine rootnode start node after) →
      Prog.Finishes (fun fuel => goOn (fun next => findLoop machine fuel next node kind) (splitName name).2 node kind)
        after := by
    intro node kind after more few comes
    cases behind : (splitName name).2 with
    | none => exact .const nofun
    | some next =>
        cases next with
        | nil => exact .const nofun
        | cons c next => exact later _ _ _ _ ⟨few, .inr ⟨more, splitName_shorter behind⟩⟩ comes
  by_cases link : kind = .symlink
  swap
  · simp only [if_neg link]
    refine .bind (.const _) (.const nofun) ?_
    rintro node after ⟨-, same⟩
    cases same
    refine rest _ _ _ kept.ge (kept.trans_le few) fun directory => ?_
    obtain rfl : kind = .directory := directory
    exact .down (comes rfl) found
  subst link
  simp only [if_true]
  have grows : Prog.Grows fun fuel => followSymlink machine (ext2fsFindFile1 machine fuel) entry node :=
    fun small large more => followSymlink_extends (fun path root => findFile1_grows path root small large more) _ _
  refine .bind grows (followSymlink_finishes found few (comes rfl) fun path root after more few comes => ?_) ?_
  · exact findFile1_finishes fun name => later name root .directory after ⟨few, .inl more⟩ fun _ => comes
  · rintro target after ⟨fuel, run⟩
    obtain ⟨more, few, ends⟩ := followSymlink_ok found few (comes rfl) run
    exact rest _ _ _ more few ends

theorem findLoop_finishes (scans : ScansEnd machine rootnode start) (name : Str) (node : Node) (type : FileType)
    (fs : Fs) (few : fs.symlinknest ≤ 7) (comes : type = .directory → Comes machine rootnode start node fs) :
    Prog.Finishes (fun fuel => findLoop machine fuel name node type) fs :=
  findLoop_step scans few comes fun next node type after nearer comes =>
    findLoop_finishes scans next node type after nearer.1 comes
termination_by (7 - fs.symlinknest, name.length)
decreasing_by
  obtain ⟨few, more | ⟨same, shorter⟩⟩ := nearer
  · exact .left _ _ (by omega)
  · obtain more | same := Nat.lt_or_eq_of_le same
    · exact .left _ _ (by omega)
    · rw [same]
      exact .right _ shorter

theorem findFile_finishes (path : Str) (rootnode : Node) (expecttype : FileType) (fs : Fs)
    (scans : ScansEnd machine rootnode { fs with symlinknest := 0 }) :
    Prog.Finishes (fun fuel => ext2fsFindFile machine fuel path rootnode expecttype) fs := by
  have find : Prog.Finishes (fun fuel => ext2fsFindFile1 machine fuel path rootnode) { fs with symlinknest := 0 } :=
    findFile1_finishes fun name => findLoop_finishes scans name rootnode .directory _ (Nat.zero_le 7) fun _ => .path
  have checked : Prog.Finishes (fun fuel => ext2fsFindFile1 machine fuel path rootnode >>= fun found =>
      if expecttype = .reg ∧ found.2.getD .directory ≠ .reg then Prog.fail .fsNotReg
      else if expecttype = .directory ∧ found.2.getD .directory ≠ .directory then Prog.fail .fsNotDir
      else pure (found.1, found.2.getD .directory)) { fs with symlinknest := 0 } := by
    refine .bind (findFile1_grows path rootnode) find fun found after _ => ?_
    exact .ite (fun _ => .const nofun) fun _ => .ite (fun _ => .const nofun) fun _ => .const nofun
  exact .congr checked fun fuel => rfl

end Termination

section Samples

/-- A directory of one entry, a symlink that leads to itself. -/
def selfLink : Image := .ofRuns [
  (32768 + 5 * 1024, [11, 0, 0, 0, 12, 0, 1, 7, 97]),
  (32768 + 1024 + 8, [6]),
  (32768 + 6 * 1024 + 10 * 128 + 4, [1]),
  (32768 + 6 * 1024 + 10 * 128 + 40, [97])]

/-- The superblock of a volume with 32 inodes in a group. -/
def smallVolume : Ext2Data := { zeroNode.data with sblock := .ofRuns [(40, [32])] }

def selfDir : Node := { zeroNode with data := smallVolume, inode := { raw := .ofRuns [(4, [12]), (40, [5])] } }

def selfDisk : Fs := { zeroDisk with inodeSize := 128 }

def selfEntry : Entry := { inode := 11, direntlen := 12, filetype := 7, filename := [97] }

theorem selfDir_scan {fs : Fs} (warm : Warm (fun _ => selfLink) fs fs) (part : fs.part = zeroDisk.part) (name : Str) :
    ext2fsIterateDir (diskMachine selfLink) 2 selfDir (some name) fs ≠ .unfinished ∧
    ∀ fuel node type after,
      ext2fsIterateDir (diskMachine selfLink) fuel selfDir (some name) fs = .ok (node, type) after → type = .symlink := by
  have steady := diskMachine_steady selfLink
  have readable : Readable (fun _ => selfLink) fs.part selfDir := by
    rw [part]
    exact oneBlock_readable _ (by decide +kernel) (by decide +kernel) (by decide +kernel)
  have tiles : Tiles (dirImage (fun _ => selfLink) fs.part selfDir) selfDir.inode.size 0 [selfEntry] := by
    rw [part]
    decide +kernel
  have size : selfDir.inode.size = 12 := by decide +kernel
  have outside : ∀ fuel after, iterateDirFrom (diskMachine selfLink) selfDir (some name) (fuel + 1) (0 + 12) after =
      .error .fsNotFound after := by
    intro fuel after
    rw [iterateDirFrom_outside fuel (by omega)]
    rfl
  have scan : ∀ fuel, ext2fsIterateDir (diskMachine selfLink) fuel selfDir (some name) fs =
      iterateDirFrom (diskMachine selfLink) selfDir (some name) fuel 0 fs := fun _ => rfl
  have one := fun fuel => iterateDirFrom_cases steady.fixed steady.reliable readable name fuel (.refl warm) tiles
  constructor
  · rw [scan]
    rcases one 1 with ⟨-, after, -, run⟩ | ⟨-, type, node, after, run, -⟩ | ⟨unnamed, -⟩ | ⟨-, untyped, -⟩
    · rw [run]
      exact (outside 0 after).symm ▸ nofun
    · rw [run]
      exact nofun
    · cases unnamed
    · exact absurd rfl (untyped .symlink)
  · intro fuel node type after found
    rw [scan] at found
    cases fuel with
    | zero => cases found
    | succ fuel =>
        rcases one fuel with ⟨-, middle, -, run⟩ | ⟨-, other, _, _, run, -, typed⟩ |
          ⟨unnamed, -⟩ | ⟨-, untyped, -⟩
        · rw [run] at found
          cases fuel with
          | zero => cases found
          | succ fuel =>
              rw [show selfEntry.direntlen = 12 from rfl, outside] at found
              cases found
        · rw [run] at found
          cases found
          exact typed
        · cases unnamed
        · exact absurd rfl (untyped .symlink)

theorem selfDir_comes {dir : Node} {fs : Fs} (comes : Comes (diskMachine selfLink) selfDir selfDisk dir fs) :
    dir = selfDir ∧ Warm (fun _ => selfLink) fs fs ∧ fs.part = zeroDisk.part ∧ fs.root = none := by
  have steady := diskMachine_steady selfLink
  have links : ∀ {before after : Fs} {target : Str}, Links (diskMachine selfLink) selfDir before target after →
      Warm (fun _ => selfLink) before before ∧ before.part = zeroDisk.part ∧ before.root = none →
      Warm (fun _ => selfLink) after after ∧ after.part = zeroDisk.part ∧ after.root = none := by
    rintro before after target ⟨fuel, name, link, middle, found, -, read⟩ ⟨warm, part, root⟩
    have scans : Repeats (fun _ => selfLink) before.part EqualSizes False (fun entry => OfUsable False entry.1)
        (ext2fsIterateDir (diskMachine selfLink) fuel selfDir (some name)) :=
      iterateDir_repeats steady.fixed (.inr steady.reliable) EqualSizes.stable EqualSizes.sizes
        (.inr (by decide +kernel)) fuel (some name)
    obtain ⟨_, same, later, usable⟩ := scans.later_ok (iterateDir_near _ _ _) (.refl warm) found
    cases found.symm.trans same
    let next : Fs := { middle with symlinknest := middle.symlinknest + 1 }
    have settled := later.warmRight.settled
    have warm' : Warm (fun _ => selfLink) next next := ⟨.refl _, settled.indir1, settled.indir2⟩
    have reads : Repeats (fun _ => selfLink) next.part EqualSizes False (fun _ => True)
        (ext2fsReadSymlink (diskMachine selfLink) link) :=
      readSymlink_repeats steady.fixed (.inr steady.reliable) EqualSizes.stable EqualSizes.sizes usable
    obtain ⟨_, same, later', -⟩ := reads.later_ok (readSymlink_near _) (.refl warm') read
    cases read.symm.trans same
    have first := iterateDir_near _ _ _ before middle (by rw [found]; rfl)
    have second := readSymlink_near _ next after (by rw [read]; rfl)
    exact ⟨later'.warmRight.settled, second.part.trans (first.part.trans part),
      second.root.trans (first.root.trans root)⟩
  induction comes with
  | path => exact ⟨rfl, ⟨.refl _, .unallocated _, .unallocated _⟩, rfl, rfl⟩
  | down comes found ih =>
      obtain ⟨rfl, warm, part, root⟩ := ih
      cases (selfDir_scan warm part _).2 _ _ _ _ found
  | beside comes follows relative ih =>
      obtain ⟨rfl, known⟩ := ih
      exact ⟨rfl, links follows known⟩
  | top comes follows absolute mounted ih =>
      obtain ⟨rfl, known⟩ := ih
      rw [(links follows known).2.2] at mounted
      cases mounted

end Samples

section Results

variable {fuel : Nat} {path : Str} {rootnode : Node} {fs : Fs}

theorem resolve_kept {failure : Failure} {after : Fs × Nat}
    (failed : resolve machine fuel 1 path rootnode ({ fs with symlinknest := 0 }, 0) = .error failure after) :
    failure.code? ≠ none := by
  have exits : ResolvesFrom machine rootnode { fs with symlinknest := 0 } 1 .directory rootnode
      (resolve machine fuel 1 path rootnode) := resolve_exits fuel 1 path rootnode
  exact exits.of_error ⟨⟨rfl, Nat.zero_le 7, le_rfl⟩, fun _ => .path⟩ failed

/-- From the start of a lookup the record is one of the lookup of the source. -/
theorem resolve_exact (fuel : Nat) (path : Str) (rootnode : Node) (fs : Fs) :
    (resolve machine fuel 1 path rootnode ({ fs with symlinknest := 0 }, 0)).Traces (fun _ => False)
      Failure.reported Prod.fst (ext2fsFindFile1 machine fuel path rootnode { fs with symlinknest := 0 }) :=
  (resolve_records fuel 1 path rootnode _).exact fun _ _ failed => resolve_kept failed

/-- A lookup on a volume whose scans end does so too. It does not give up at an
eighth target or a ninth call, and without its record it is the lookup of the
source. -/
theorem findFile_bounded (machine : Machine) (path : Str) (rootnode : Node) (expecttype : FileType) (fs : Fs)
    (scans : ScansEnd machine rootnode { fs with symlinknest := 0 }) :
    (∃ fuel, ∀ more, fuel ≤ more → ext2fsFindFile machine more path rootnode expecttype fs ≠ .unfinished) ∧
    ∀ fuel,
      (resolve machine fuel 1 path rootnode ({ fs with symlinknest := 0 }, 0)).Traces (fun _ => False)
        Failure.reported Prod.fst (ext2fsFindFile1 machine fuel path rootnode { fs with symlinknest := 0 }) ∧
      ∀ failure after,
        resolve machine fuel 1 path rootnode ({ fs with symlinknest := 0 }, 0) = .error failure after →
        failure.code? ≠ none :=
  ⟨findFile_finishes path rootnode expecttype fs scans,
    fun fuel => ⟨resolve_exact fuel path rootnode fs, fun _ _ failed => resolve_kept failed⟩⟩

theorem findFile_bounded_sample :
    (∃ fuel, ∀ more, fuel ≤ more →
      ext2fsFindFile (diskMachine selfLink) more [97] selfDir .reg selfDisk ≠ .unfinished) ∧
    ∀ fuel,
      (resolve (diskMachine selfLink) fuel 1 [97] selfDir (selfDisk, 0)).Traces (fun _ => False)
        Failure.reported Prod.fst (ext2fsFindFile1 (diskMachine selfLink) fuel [97] selfDir selfDisk) ∧
      ∀ failure after,
        resolve (diskMachine selfLink) fuel 1 [97] selfDir (selfDisk, 0) = .error failure after →
        failure.code? ≠ none :=
  findFile_bounded (diskMachine selfLink) [97] selfDir .reg selfDisk fun _ name fs comes => by
    obtain ⟨rfl, warm, part, -⟩ := selfDir_comes comes
    exact ⟨2, (selfDir_scan warm part name).1⟩

/-- The error of a lookup is that of the step that failed, unless that step was
in the target of a symlink. -/
theorem findFile_reports_iff (machine : Machine) (fuel : Nat) (path : Str) (rootnode : Node)
    (expecttype : FileType) (fs : Fs) {reported : QuikErr} {final : Fs}
    (failed : ext2fsFindFile1 machine fuel path rootnode { fs with symlinknest := 0 } = .error reported final) :
    ∃ failure reads code,
      resolve machine fuel 1 path rootnode ({ fs with symlinknest := 0 }, 0) = .error failure (final, reads) ∧
      failure.code? = some code ∧
      ((ext2fsFindFile machine fuel path rootnode expecttype fs).code? = some code ↔
        failure = .here code ∨ code = .fsNotFound) := by
  have returned : ext2fsFindFile machine fuel path rootnode expecttype fs = .error reported final := by
    unfold ext2fsFindFile
    rw [Prog.update_bind]
    exact Prog.bind_run_error failed
  have exact : (resolve machine fuel 1 path rootnode ({ fs with symlinknest := 0 }, 0)).Traces _ _ _ _ :=
    resolve_exact fuel path rootnode fs
  rw [failed] at exact
  cases run : resolve machine fuel 1 path rootnode ({ fs with symlinknest := 0 }, 0) with
  | error failure after =>
      obtain ⟨code, step⟩ := Option.ne_none_iff_exists'.mp (resolve_kept run)
      rw [run] at exact
      cases exact.resolve_left id
      refine ⟨failure, after.2, code, rfl, step, ?_⟩
      rw [returned, ← Failure.reported_iff step]
      exact Option.some_inj
  | ok found after => rw [run] at exact; cases exact
  | fault => rw [run] at exact; cases exact
  | undefined => rw [run] at exact; cases exact
  | unfinished => rw [run] at exact; cases exact

/-- A directory with a symlink `a` that leads to the regular file `b`. -/
def linkToFile : Image := .ofRuns [
  (32768 + 5 * 1024, [11, 0, 0, 0, 12, 0, 1, 7, 97, 0, 0, 0, 12, 0, 0, 0, 12, 0, 1, 1, 98]),
  (32768 + 1024 + 8, [6]),
  (32768 + 6 * 1024 + 10 * 128 + 4, [1]),
  (32768 + 6 * 1024 + 10 * 128 + 40, [98])]

def linkDir : Node := { selfDir with inode := { raw := .ofRuns [(4, [24]), (40, [5])] } }

/-- The symlink is followed, and what it leads to is not a directory. -/
theorem findFile_reports_sample : ∃ final,
    resolve (diskMachine linkToFile) 20 1 (str "a/c") linkDir (selfDisk, 0) =
      .error (.here .fsNotDir) (final, 1) ∧
    (ext2fsFindFile (diskMachine linkToFile) 20 (str "a/c") linkDir .reg selfDisk).code? = some .fsNotDir := by
  have stops : (ext2fsFindFile1 (diskMachine linkToFile) 20 (str "a/c") linkDir selfDisk).code? =
      some .fsNotDir := by decide +kernel
  have first : (resolve (diskMachine linkToFile) 20 1 (str "a/c") linkDir (selfDisk, 0)).code? =
      some (.here .fsNotDir) := by decide +kernel
  have followed : (resolve (diskMachine linkToFile) 20 1 (str "a/c") linkDir (selfDisk, 0)).state?.map Prod.snd =
      some 1 := by decide +kernel
  obtain ⟨final, failed⟩ := Outcome.code?_eq_some.mp stops
  obtain ⟨failure, reads, code, run, step, same⟩ :=
    findFile_reports_iff (diskMachine linkToFile) 20 (str "a/c") linkDir .reg selfDisk failed
  have traced : resolve (diskMachine linkToFile) 20 1 (str "a/c") linkDir (selfDisk, 0) =
      .error failure (final, reads) := run
  rw [traced] at first followed
  cases first
  cases followed
  cases step
  exact ⟨final, traced, same.mpr (.inl rfl)⟩

/-- A symlink that leads to itself is reported as a missing file. -/
theorem findFile_masks :
    ¬∀ (machine : Machine) (fuel : Nat) (path : Str) (rootnode : Node) (expecttype : FileType) (fs : Fs)
      (failure : Failure) (after : Fs × Nat) (code : QuikErr),
      resolve machine fuel 1 path rootnode ({ fs with symlinknest := 0 }, 0) = .error failure after →
      failure.code? = some code →
      (ext2fsFindFile machine fuel path rootnode expecttype fs).code? = some code := by
  intro reports
  have loops : (resolve (diskMachine selfLink) 20 1 [97] selfDir (selfDisk, 0)).code?.bind Failure.code? =
      some .fsLoop := by decide +kernel
  have missing : (ext2fsFindFile (diskMachine selfLink) 20 [97] selfDir .reg selfDisk).code? = some .fsNotFound := by
    decide +kernel
  obtain ⟨failure, failed, step⟩ := Option.bind_eq_some_iff.mp loops
  cases run : resolve (diskMachine selfLink) 20 1 [97] selfDir (selfDisk, 0) with
  | error known after =>
      rw [run] at failed
      cases failed
      have reported := reports _ 20 [97] selfDir .reg selfDisk _ _ _ run step
      rw [missing] at reported
      cases reported
  | ok found after => rw [run] at failed; cases failed
  | fault => rw [run] at failed; cases failed
  | undefined => rw [run] at failed; cases failed
  | unfinished => rw [run] at failed; cases failed

end Results

end IQuik.Ext2
