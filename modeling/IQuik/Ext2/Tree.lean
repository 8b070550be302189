import IQuik.Ext2.Paths
import Mathlib.Data.List.TakeWhile

namespace IQuik.Ext2

open IQuik.Data

/-! # Resolving paths in a directory tree

What a path means, without regard to blocks, buffers and nested calls: a symlink
stands for the components of its target.
-/

/-- The components of a path; empty ones do not count. -/
def components (path : Str) : List Str := (path.splitOnP (· == 47)).filter (· ≠ [])

@[simp] theorem components_nil : components [] = [] := by
  simp [components]

@[simp] theorem components_slash (path : Str) : components (47 :: path) = components path := by
  have split : ([] ++ 47 :: path : Str).splitOnP (· == 47) = _ := List.splitOnP_append_cons _ _ rfl
  rw [List.nil_append] at split
  simp [components, split]

theorem components_dropSlashes (path : Str) :
    components (path.dropWhile (· = 47)) = components path := by
  induction path with
  | nil => rfl
  | cons c path ih =>
      by_cases slash : c = 47
      · simp [slash, ih]
      · simp [slash]

theorem components_word {word : Str} (plain : ∀ c ∈ word, c ≠ 47) (some' : word ≠ []) :
    components word = [word] := by
  have single : word.splitOnP (· == 47) = [word] :=
    List.splitOnP_eq_singleton fun c mem => by simpa using plain c mem
  simp [components, single, some']

theorem components_word_slash {word : Str} (plain : ∀ c ∈ word, c ≠ 47) (some' : word ≠ [])
    (rest : Str) : components (word ++ 47 :: rest) = word :: components rest := by
  have split : (word ++ 47 :: rest).splitOnP (· == 47) = _ := List.splitOnP_append_cons _ _ rfl
  have single : word.splitOnP (· == 47) = [word] :=
    List.splitOnP_eq_singleton fun c mem => by simpa using plain c mem
  simp [components, split, single, some']

/-- A path without leading slashes starts with its first component. -/
theorem components_name {name : Str} (some' : name ≠ []) (start : name.head? ≠ some 47) :
    components name = name.takeWhile (· ≠ 47) :: components (name.dropWhile (· ≠ 47)) := by
  have plain : ∀ c ∈ name.takeWhile (· ≠ 47), c ≠ 47 := fun c mem => by
    simpa using List.mem_takeWhile_imp mem
  have whole := List.takeWhile_append_dropWhile (p := (· ≠ 47)) (l := name)
  have word : name.takeWhile (· ≠ 47) ≠ [] := by
    cases name with
    | nil => exact absurd rfl some'
    | cons c rest =>
        have first : c ≠ 47 := by simpa using start
        simp [first]
  cases behind : name.dropWhile (· ≠ 47) with
  | nil =>
      rw [behind, List.append_nil] at whole
      rw [components_nil, whole]
      rw [whole] at plain word
      exact components_word plain word
  | cons c rest =>
      have slash : c = 47 := by
        have head := List.head?_dropWhile_not (fun c : UInt8 => decide (c ≠ 47)) name
        rw [behind] at head
        simpa using head
      rw [slash] at behind
      rw [slash, components_slash, ← components_word_slash plain word rest, ← behind, whole]

inductive Object where
  | directory (entries : List (Str × Nat))
  | symlink (target : Str)
  | reg
  | other

/-- What the inode numbers stand for. -/
abbrev Tree := Nat → Option Object

namespace Tree

/-- The number of the root directory. -/
def root : Nat := 2

variable (tree : Tree)

def type (ino : Nat) : FileType :=
  match tree ino with
  | some (.directory _) => .directory
  | some (.symlink _) => .symlink
  | some .reg => .reg
  | _ => .unknown

/-- The entry `name` of a directory. -/
def lookup (dir : Nat) (name : Str) : Option Nat :=
  match tree dir with
  | some (.directory entries) => entries.lookup name
  | _ => none

def target (ino : Nat) : Option Str :=
  match tree ino with
  | some (.symlink target) => some target
  | _ => none

end Tree

/-- Where the target of a symlink in the directory `dir` starts. -/
def startOf (target : Str) (dir : Nat) : Nat :=
  if target.head? = some 47 then Tree.root else dir

/-- From the directory or file `ino`, the components lead to `out`, or nowhere,
and the symlinks that are followed on the way have the targets `links`. -/
inductive Resolves (tree : Tree) : Nat → List Str → List Str → Option Nat → Prop
  | done (ino : Nat) : Resolves tree ino [] [] (some ino)
  | missing {dir : Nat} {name : Str} {rest : List Str} (none' : tree.lookup dir name = none) :
      Resolves tree dir (name :: rest) [] none
  | step {dir child : Nat} {name : Str} {rest links : List Str} {out : Option Nat}
      (found : tree.lookup dir name = some child) (plain : tree.target child = none)
      (resolves : Resolves tree child rest links out) : Resolves tree dir (name :: rest) links out
  | link {dir child : Nat} {name target : Str} {rest links : List Str} {out : Option Nat}
      (found : tree.lookup dir name = some child) (symlink : tree.target child = some target)
      (resolves : Resolves tree (startOf target dir) (components target ++ rest) links out) :
      Resolves tree dir (name :: rest) (target :: links) out

namespace Resolves

variable {tree : Tree} {ino : Nat} {links : List Str} {out : Option Nat}

/-- What components lead to is what the last of them lead to from where the
first ones lead. -/
theorem split {first rest : List Str} (resolves : Resolves tree ino (first ++ rest) links out) :
    (∃ middle before after, Resolves tree ino first before (some middle) ∧
      Resolves tree middle rest after out ∧ links = before ++ after) ∨
    (Resolves tree ino first links none ∧ out = none) := by
  generalize whole : first ++ rest = names at resolves
  induction resolves generalizing first with
  | done ino =>
      obtain ⟨rfl, rfl⟩ := List.append_eq_nil_iff.mp whole
      exact .inl ⟨ino, [], [], .done ino, .done ino, rfl⟩
  | @missing dir name behind none' =>
      cases first with
      | nil =>
          obtain rfl : rest = name :: behind := whole
          exact .inl ⟨dir, [], [], .done dir, .missing none', rfl⟩
      | cons head first =>
          obtain ⟨rfl, -⟩ := List.cons.inj whole
          exact .inr ⟨.missing none', rfl⟩
  | @step dir child name behind links out found plain resolves ih =>
      cases first with
      | nil =>
          obtain rfl : rest = name :: behind := whole
          exact .inl ⟨dir, [], links, .done dir, .step found plain resolves, rfl⟩
      | cons head first =>
          obtain ⟨rfl, same⟩ := List.cons.inj whole
          rcases ih same with ⟨middle, before, after, leads, onward, rfl⟩ | ⟨fails, rfl⟩
          · exact .inl ⟨middle, before, after, .step found plain leads, onward, rfl⟩
          · exact .inr ⟨.step found plain fails, rfl⟩
  | @link dir child name target behind links out found symlink resolves ih =>
      cases first with
      | nil =>
          obtain rfl : rest = name :: behind := whole
          exact .inl ⟨dir, [], target :: links, .done dir, .link found symlink resolves, rfl⟩
      | cons head first =>
          obtain ⟨rfl, same⟩ := List.cons.inj whole
          have onwards : components target ++ first ++ rest = components target ++ behind :=
            (List.append_assoc _ _ _).trans (congrArg _ same)
          rcases ih onwards with ⟨middle, before, after, leads, onward, rfl⟩ | ⟨fails, rfl⟩
          · exact .inl ⟨middle, target :: before, after, .link found symlink leads, onward, rfl⟩
          · exact .inr ⟨.link found symlink fails, rfl⟩

end Resolves

end IQuik.Ext2
