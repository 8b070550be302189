import IQuik.Data.Forests
import IQuik.Prom.Shim

namespace IQuik.Prom

open IQuik.Data IQuik.Program

/-! # What a client sees of the device tree -/

/-- A device tree. A handle that is 0 stands for no node. -/
structure DeviceTree where
  root : Nat
  below : Forest Nat
  distinct : (Forest.node root below .empty).nodes.Nodup
  nonzero : 0 ∉ (Forest.node root below .empty).nodes

namespace DeviceTree

def forest (tree : DeviceTree) : Forest Nat := .node tree.root tree.below .empty

def handles (tree : DeviceTree) : List Nat := tree.forest.nodes

def subtree (tree : DeviceTree) (handle : Nat) : List Nat := tree.forest.subtree handle

end DeviceTree

def nodeCall (service : Str) (handle : Nat) : PromArgs where
  service := service
  nargs := 1
  nret := 1
  args := fun i => if i = 0 then .word handle else .word 0

/-- The firmware answers `child` and `peer` by the tree. -/
structure Serves (firmware : PromArgs → PromArgs) (tree : DeviceTree) : Prop where
  nargs : ∀ call, (firmware call).nargs = call.nargs
  child : ∀ handle, (firmware (nodeCall (str "child") handle)).args 1 = .word ((tree.forest.child? handle).getD 0)
  peer : ∀ handle, (firmware (nodeCall (str "peer") handle)).args 1 = .word ((tree.forest.peer? handle).getD 0)

section Client

variable (setup : ShimSetup) (firmware : PromArgs → PromArgs) (fuel : Nat)

/-- What a client is answered through `prom_shim`. -/
def answer (service : Str) (handle : Nat) : Option Nat :=
  (promShim setup firmware fuel (.start (nodeCall service handle))).success?.bind fun after =>
    (after.call.args 1).number?

/-- The nodes that a client reaches from `root` by `child` and `peer`. -/
inductive Reached (root : Nat) : Nat → Prop where
  | root : Reached root root
  | child {handle next : Nat} (reached : Reached root handle)
      (first : answer setup firmware fuel (str "child") handle = some next) (some' : next ≠ 0) : Reached root next
  | peer {handle next : Nat} (reached : Reached root handle)
      (behind : answer setup firmware fuel (str "peer") handle = some next) (some' : next ≠ 0) : Reached root next

end Client

section Hiding

variable {setup : ShimSetup} {firmware : PromArgs → PromArgs} {fuel handle found next : Nat} {tree : DeviceTree}

/-- A single answer is replaced by 0. -/
theorem answer_eq {service : Str} (asked : service = str "child" ∨ service = str "peer")
    (hides : setup.hideMediabayAta = true) (nargs : ∀ call, (firmware call).nargs = call.nargs)
    (served : (firmware (nodeCall service handle)).args 1 = .word found) :
    answer setup firmware fuel service handle = some (if found = setup.mediabayAta then 0 else found) := by
  have other : service ≠ str "getprop" := by
    obtain rfl | rfl := asked
    · decide
    · decide
  have walks : service = str "child" ∨ service = str "peer" ∨ service = str "parent" :=
    asked.imp_right .inl
  let served' := { ShimState.start (nodeCall service handle) with call := firmware (nodeCall service handle) }
  have entry : promEntry firmware (.start (nodeCall service handle)) = .ok ⟨⟩ served' := rfl
  have cell : served'.call.args served'.call.nargs = .word found := by
    rw [show served'.call.nargs = 1 from nargs _]
    exact served
  have run : promShim setup firmware fuel (.start (nodeCall service handle)) =
      (if served'.call.args served'.call.nargs = .word setup.mediabayAta then storeCell served'.call.nargs (.word 0)
        else pure ⟨⟩ : ShimProg PUnit) served' := by
    rw [promShim, Prog.view_bind]
    have name : (ShimState.start (nodeCall service handle)).call.service = service := rfl
    rw [name, if_neg other, shimOthers, if_pos ⟨hides, walks⟩, Prog.bind_run_ok entry, Prog.view_bind]
  rw [answer, run, cell]
  simp only [Cell.word.injEq]
  by_cases hidden : found = setup.mediabayAta
  · rw [if_pos hidden, if_pos hidden, show served'.call.nargs = 1 from nargs _]
    rfl
  · rw [if_neg hidden, if_neg hidden]
    exact congrArg Cell.number? served

/-- What is answered is the next node, unless that is hidden. -/
theorem answer_some {service : Str} {node? : Nat → Option Nat} (asked : service = str "child" ∨ service = str "peer")
    (hides : setup.hideMediabayAta = true) (nargs : ∀ call, (firmware call).nargs = call.nargs)
    (served : (firmware (nodeCall service handle)).args 1 = .word ((node? handle).getD 0))
    (nonzero : node? handle ≠ some 0) :
    (answer setup firmware fuel service handle = some next ∧ next ≠ 0) ↔
      node? handle = some next ∧ next ≠ setup.mediabayAta := by
  rw [answer_eq asked hides nargs served, Option.some.injEq]
  cases known : node? handle with
  | none =>
      have none : (if (none : Option Nat).getD 0 = setup.mediabayAta then 0 else (none : Option Nat).getD 0) = 0 :=
        ite_self 0
      rw [none]
      exact iff_of_false (fun both => both.2 both.1.symm) fun both => nomatch both.1
  | some other =>
      rw [Option.getD_some, Option.some.injEq]
      have some' : other ≠ 0 := fun zero => nonzero (known.trans (congrArg some zero))
      by_cases hidden : other = setup.mediabayAta
      · rw [if_pos hidden]
        exact iff_of_false (fun both => both.2 both.1.symm) fun both => both.2 (both.1.symm.trans hidden)
      · rw [if_neg hidden]
        constructor
        · rintro ⟨rfl, -⟩
          exact ⟨rfl, hidden⟩
        · rintro ⟨rfl, -⟩
          exact ⟨rfl, some'⟩

theorem reached_iff_forest (serves : Serves firmware tree) (hides : setup.hideMediabayAta = true) {start : Nat} :
    Reached setup firmware fuel start handle ↔ tree.forest.Reached setup.mediabayAta start handle := by
  have first (handle next : Nat) : (answer setup firmware fuel (str "child") handle = some next ∧ next ≠ 0) ↔
      tree.forest.child? handle = some next ∧ next ≠ setup.mediabayAta :=
    answer_some (.inl rfl) hides serves.nargs (serves.child handle)
      fun zero => tree.nonzero (Forest.child_mem tree.distinct zero)
  have behind (handle next : Nat) : (answer setup firmware fuel (str "peer") handle = some next ∧ next ≠ 0) ↔
      tree.forest.peer? handle = some next ∧ next ≠ setup.mediabayAta :=
    answer_some (.inr rfl) hides serves.nargs (serves.peer handle)
      fun zero => tree.nonzero (Forest.peer_mem tree.distinct zero)
  constructor
  · intro reached
    induction reached with
    | root => exact .start
    | child _ answered some' ih =>
        obtain ⟨next, shown⟩ := (first _ _).mp ⟨answered, some'⟩
        exact .child ih next shown
    | peer _ answered some' ih =>
        obtain ⟨next, shown⟩ := (behind _ _).mp ⟨answered, some'⟩
        exact .peer ih next shown
  · intro reached
    induction reached with
    | start => exact .root
    | child _ next shown ih =>
        obtain ⟨answered, some'⟩ := (first _ _).mpr ⟨next, shown⟩
        exact .child ih answered some'
    | peer _ next shown ih =>
        obtain ⟨answered, some'⟩ := (behind _ _).mpr ⟨next, shown⟩
        exact .peer ih answered some'

/-- Hiding the media bay hides only its subtree exactly when no sibling follows it. -/
theorem hides_only_iff (serves : Serves firmware tree) (hides : setup.hideMediabayAta = true)
    (member : setup.mediabayAta ∈ tree.handles) (notRoot : setup.mediabayAta ≠ tree.root) (fuel : Nat) :
    (∀ handle, Reached setup firmware fuel tree.root handle ↔
      handle ∈ tree.handles ∧ handle ∉ tree.subtree setup.mediabayAta) ↔
    tree.forest.peer? setup.mediabayAta = none := by
  simp only [reached_iff_forest serves hides]
  exact Forest.reaches_outside_iff tree.distinct rfl (Ne.symm notRoot) member

def treeFirmware (tree : DeviceTree) (call : PromArgs) : PromArgs :=
  let handle := (call.args 0).number?.getD 0
  let next :=
    if call.service = str "child" then tree.forest.child? handle
    else if call.service = str "peer" then tree.forest.peer? handle
    else none
  { call with args := fun i => if i = call.nargs then .word (next.getD 0) else call.args i }

theorem treeFirmware_serves (tree : DeviceTree) : Serves (treeFirmware tree) tree where
  nargs _ := rfl
  child _ := rfl
  peer _ := rfl

/-- The root 1 has the children 2 and 3; 4 is below 2, and 5 below 3. -/
def smallTree : DeviceTree where
  root := 1
  below := .node 2 (.node 4 .empty .empty) (.node 3 (.node 5 .empty .empty) .empty)
  distinct := by decide
  nonzero := by decide

def hidingNode (handle : Nat) : ShimSetup where
  smpFix := false
  shallowSetprop := false
  hideMediabayAta := true
  debugBeforeBoot := false
  promChosen := 0
  initrdBase := 0
  initrdLen := 0
  mediabayAta := handle
  cpuCount := 0
  cpu := 0

/-- The last of two children is hidden with what is below it. -/
theorem hides_only_last :
    Reached (hidingNode 3) (treeFirmware smallTree) 0 1 4 ∧ ¬Reached (hidingNode 3) (treeFirmware smallTree) 0 1 5 := by
  have hidesOnly : ∀ handle, Reached (hidingNode 3) (treeFirmware smallTree) 0 1 handle ↔
      handle ∈ smallTree.handles ∧ handle ∉ smallTree.subtree 3 :=
    (hides_only_iff (treeFirmware_serves smallTree) rfl (by decide) (by decide) 0).mpr rfl
  rw [hidesOnly, hidesOnly]
  decide

/-- The first of two children is hidden, and the second one is not found any more. -/
theorem hides_sibling :
    ¬Reached (hidingNode 2) (treeFirmware smallTree) 0 1 3 ∧
      3 ∈ smallTree.handles ∧ 3 ∉ smallTree.subtree 2 := by
  refine ⟨fun reached => ?_, by decide, by decide⟩
  have left := (Forest.reached_iff smallTree.distinct rfl (by decide)).mp
    ((reached_iff_forest (treeFirmware_serves smallTree) rfl).mp reached)
  exact absurd left (by decide)

end Hiding

end IQuik.Prom
