import IQuik.Ext2.Resolution
import IQuik.Ext2.TreeReads

namespace IQuik.Ext2

open IQuik.Data IQuik.Program IQuik.Storage

/-! # Lookups of paths in a tree -/

/-- The components that are looked up on the way. -/
def weight (names links : List Str) : Nat :=
  names.length + (links.map fun target => (components target).length).sum

/-- More than the entries of a directory. -/
def entryBound : Nat := 0x20000000

/-- An error, or a node that is taken for a symlink. -/
def Stray (outcome : Outcome QuikErr Fs (Node × Option FileType)) : Prop :=
  (∃ code after, outcome = .error code after) ∨ ∃ node after, outcome = .ok (node, some .symlink) after

/-- What a lookup does where the reference has the result `out`, through symlinks with the
targets `links`. A target of slashes only leads to the root, but not to its type. -/
structure Leads (image : Nat → Image) (start : Fs) (data : Ext2Data) (inodes : Nat → Inode) (tree : Tree)
    (nest : Nat) (links : List Str) (out : Option Nat) (outcome : Outcome QuikErr Fs (Node × Option FileType)) :
    Prop where
  missing : out = none → ∃ code after, outcome = .error code after
  found : ∀ ino, out = some ino → (∀ target ∈ links, components target ≠ []) → ∃ node after,
    outcome = .ok (node, some (tree.type ino)) after ∧ Stands data inodes ino node ∧
      Ready image start data (nest + links.length) after
  stray : ∀ ino, out = some ino → (∃ target ∈ links, components target = []) → Stray outcome

variable {machine : Machine} {image : Nat → Image} {start fs : Fs} {data : Ext2Data} {inodes : Nat → Inode}
  {tree : Tree} {ino nest fuel : Nat} {node : Node} {name : Str} {names rest links : List Str} {out : Option Nat}

section Paths

/-- Behind a component the path ends, or there is another one. -/
theorem goOn_cases (name : Str) :
    (components (name.dropWhile (· ≠ 47)) = [] ∧
      ∀ (loop : Str → FsProg (Node × Option FileType)) (node : Node) (type : FileType),
        goOn loop (splitName name).2 node type = pure (node, some type)) ∨
    ∃ next, next ≠ [] ∧ next.head? ≠ some 47 ∧ components next = components (name.dropWhile (· ≠ 47)) ∧
      ∀ (loop : Str → FsProg (Node × Option FileType)) (node : Node) (type : FileType),
        goOn loop (splitName name).2 node type = loop next := by
  have same := components_dropSlashes (name.dropWhile (· ≠ 47))
  unfold splitName
  cases behind : name.dropWhile (· ≠ 47) with
  | nil => exact .inl ⟨components_nil, fun _ _ _ => rfl⟩
  | cons c rest =>
      rw [behind] at same
      dsimp only
      cases next : (c :: rest).dropWhile (· = 47) with
      | nil =>
          rw [next, components_nil] at same
          exact .inl ⟨same.symm, fun _ _ _ => rfl⟩
      | cons d next' =>
          have head := List.head?_dropWhile_not (fun b : UInt8 => decide (b = 47)) (c :: rest)
          rw [next] at head same
          refine .inr ⟨d :: next', List.cons_ne_nil _ _, ?_, same, fun _ _ _ => rfl⟩
          simpa using head

/-- A path has no components, or it is looked up without its leading slashes. -/
theorem findFile1_cases (machine : Machine) (fuel : Nat) (path : Str) :
    (components path = [] ∧ ∀ root, ext2fsFindFile1 machine fuel path root = pure (root, none)) ∨
    ∃ name, name ≠ [] ∧ name.head? ≠ some 47 ∧ components name = components path ∧
      ∀ root, ext2fsFindFile1 machine fuel path root = findLoop machine fuel name root .directory := by
  have same := components_dropSlashes path
  unfold ext2fsFindFile1 enterPath
  cases name : path.dropWhile (· = 47) with
  | nil =>
      rw [name, components_nil] at same
      exact .inl ⟨same.symm, fun _ => rfl⟩
  | cons c rest =>
      have head := List.head?_dropWhile_not (fun b : UInt8 => decide (b = 47)) path
      rw [name] at head same
      refine .inr ⟨c :: rest, List.cons_ne_nil _ _, ?_, same, fun _ => rfl⟩
      simpa using head

theorem word_ne_nil (some' : name ≠ []) (plain : name.head? ≠ some 47) : (splitName name).1 ≠ [] := by
  cases name with
  | nil => exact absurd rfl some'
  | cons c rest =>
      have first : c ≠ 47 := by simpa using plain
      simp [splitName, first]

/-- A node that is taken for a symlink is where the path ends, or an error. -/
theorem goOn_stray (enough : 0 < fuel) (name : Str) (node : Node) (fs : Fs) :
    Stray (goOn (fun next => findLoop machine fuel next node .symlink) (splitName name).2 node .symlink fs) ∧
      (components (name.dropWhile (· ≠ 47)) ≠ [] → ∃ code after,
        goOn (fun next => findLoop machine fuel next node .symlink) (splitName name).2 node .symlink fs =
          .error code after) := by
  rcases goOn_cases name with ⟨last, run⟩ | ⟨next, -, -, -, run⟩
  · rw [run]
    exact ⟨.inr ⟨node, fs, rfl⟩, fun more => absurd last more⟩
  · obtain ⟨less, rfl⟩ : ∃ less, fuel = less + 1 := ⟨fuel - 1, by omega⟩
    have refused : findLoop machine (less + 1) next node .symlink fs = .error .fsNotDir fs := by
      rw [findLoop_eq, if_pos (by decide)]
      rfl
    rw [run, refused]
    exact ⟨.inl ⟨_, _, rfl⟩, fun _ => ⟨_, _, rfl⟩⟩

end Paths

section Trees

theorem Tree.type_directory {listed : List (Str × Nat)} (directory : tree ino = some (.directory listed)) :
    tree.type ino = .directory := by
  unfold Tree.type
  rw [directory]

theorem Tree.of_type_directory (type : tree.type ino = .directory) : ∃ listed, tree ino = some (.directory listed) := by
  unfold Tree.type at type
  split at type
  · exact ⟨_, ‹_›⟩
  · cases type
  · cases type
  · cases type

theorem Tree.of_lookup {child : Nat} (found : tree.lookup ino name = some child) :
    ∃ listed, tree ino = some (.directory listed) := by
  unfold Tree.lookup at found
  split at found
  · exact ⟨_, ‹_›⟩
  · cases found

theorem Tree.type_symlink : tree.type ino = .symlink ↔ ∃ target, tree.target ino = some target := by
  unfold Tree.type Tree.target
  cases tree ino with
  | none => simp
  | some object => cases object <;> simp

/-- What a path leads to is no symlink. -/
theorem Resolves.plain {final : Nat} (resolves : Resolves tree ino names links (some final))
    (start : tree.target ino = none) (root : tree.target Tree.root = none) : tree.target final = none := by
  generalize same : some final = out at resolves
  induction resolves with
  | done ino => cases same; exact start
  | missing none' => cases same
  | step found plain resolves ih => exact ih plain same
  | @link dir child name target rest links out found symlink resolves ih =>
      refine ih ?_ same
      unfold startOf
      split
      · exact root
      · obtain ⟨listed, directory⟩ := Tree.of_lookup found
        unfold Tree.target
        rw [directory]

end Trees

section Lookups

variable (holds : HoldsTree machine image start data inodes tree)
include holds

theorem HoldsTree.few_entries {listed : List (Str × Nat)} (directory : tree ino = some (.directory listed)) :
    listed.length < entryBound := by
  obtain ⟨entries, held, rfl⟩ := holds.directories ino listed directory
  have fits := held.tiles.length_le
  have word : (inodes ino).size < 2 ^ 32 := Image.le32_lt _ _
  rw [List.length_map, entryBound]
  omega

theorem HoldsTree.root_plain : tree.target Tree.root = none := by
  obtain ⟨listed, directory⟩ := holds.root
  unfold Tree.target
  rw [directory]

variable (fixed : machine.Fixed image) (reliable : machine.Reliable) (warm : Warm image start start)
include fixed reliable warm

/-- The target of a symlink is read, and looked up from where it starts. -/
theorem followSymlink_run {find : Str → Node → FsProg (Node × Option FileType)} {link old : Node} {child : Nat}
    {target : Str} (linkStands : Stands data inodes child link) (oldStands : Stands data inodes ino old)
    (symlink : tree.target child = some target) (few : nest + 1 ≤ 7) (ready : Ready image start data nest fs) :
    ∃ root after, Stands data inodes (startOf target ino) root ∧ Ready image start data (nest + 1) after ∧
      followSymlink machine find link old fs =
        (Prog.mapError (fun _ => .fsNotFound) (find target root) >>= fun found =>
          pure (found.1, found.2.getD .symlink)) after := by
  have counted : Ready image start data (nest + 1) { fs with symlinknest := fs.symlinknest + 1 } :=
    ⟨ready.later.nested _, ready.root, congrArg (· + 1) ready.nest⟩
  obtain ⟨after, read, ready'⟩ := holds.target fixed reliable warm linkStands symlink counted
  have shallow : ¬fs.symlinknest + 1 = 8 := by
    rw [ready.nest]
    omega
  obtain ⟨root, stands, chosen⟩ : ∃ root, Stands data inodes (startOf target ino) root ∧
      targetRoot old target after = .ok root after := by
    unfold targetRoot startOf
    by_cases absolute : target.head? = some 47
    · rw [if_pos absolute, if_pos absolute, Prog.view_bind, ready'.root]
      exact ⟨data.diropen, holds.diropen, rfl⟩
    · rw [if_neg absolute, if_neg absolute]
      exact ⟨old, oldStands, rfl⟩
  refine ⟨root, after, stands, ready', ?_⟩
  rw [followSymlink_eq, Prog.update_bind, Prog.view_bind, if_neg shallow, Prog.bind_run_ok read,
    Prog.bind_run_ok chosen]

omit holds fixed reliable warm in
theorem followed_ok {α : Type} {find : Str → Node → FsProg (Node × Option FileType)} {link old root found : Node}
    {target : Str} {type : Option FileType} {after state : Fs} {rest : Node × FileType → FsProg α}
    (run : followSymlink machine find link old fs =
      (Prog.mapError (fun _ => .fsNotFound) (find target root) >>= fun found =>
        pure (found.1, found.2.getD .symlink)) after)
    (finds : find target root after = .ok (found, type) state) :
    (followSymlink machine find link old >>= rest) fs = rest (found, type.getD .symlink) state := by
  have mapped : Prog.mapError (fun _ => .fsNotFound) (find target root) after = .ok (found, type) state := by
    rw [Prog.mapError, finds]
  rw [Prog.bind_run_ok (run.trans (Prog.bind_run_ok mapped))]

omit holds fixed reliable warm in
theorem followed_error {α : Type} {find : Str → Node → FsProg (Node × Option FileType)} {link old root : Node}
    {target : Str} {code : QuikErr} {after state : Fs} {rest : Node × FileType → FsProg α}
    (run : followSymlink machine find link old fs =
      (Prog.mapError (fun _ => .fsNotFound) (find target root) >>= fun found =>
        pure (found.1, found.2.getD .symlink)) after)
    (stops : find target root after = .error code state) :
    (followSymlink machine find link old >>= rest) fs = .error .fsNotFound state := by
  have mapped : Prog.mapError (fun _ => .fsNotFound) (find target root) after = .error .fsNotFound state := by
    rw [Prog.mapError, stops]
  rw [Prog.bind_run_error (run.trans (Prog.bind_run_error mapped))]

/-- With `fuel` the loop finds what the reference finds. -/
def LoopLeads (machine : Machine) (image : Nat → Image) (start : Fs) (data : Ext2Data) (inodes : Nat → Inode)
    (tree : Tree) (fuel : Nat) : Prop :=
  ∀ {name : Str} {node : Node} {ino nest : Nat} {links : List Str} {out : Option Nat} {fs : Fs}, name ≠ [] →
    name.head? ≠ some 47 → Stands data inodes ino node → Ready image start data nest fs →
    Resolves tree ino (components name) links out → nest + links.length ≤ 7 →
    weight (components name) links + entryBound ≤ fuel →
    Leads image start data inodes tree nest links out (findLoop machine fuel name node (tree.type ino) fs)

omit holds fixed reliable warm in
theorem goOn_leads (loop : LoopLeads machine image start data inodes tree fuel) (stands : Stands data inodes ino node)
    (ready : Ready image start data nest fs)
    (resolves : Resolves tree ino (components (name.dropWhile (· ≠ 47))) links out) (few : nest + links.length ≤ 7)
    (enough : weight (components (name.dropWhile (· ≠ 47))) links + entryBound ≤ fuel) :
    Leads image start data inodes tree nest links out
      (goOn (fun next => findLoop machine fuel next node (tree.type ino)) (splitName name).2 node (tree.type ino) fs) := by
  rcases goOn_cases name with ⟨last, run⟩ | ⟨next, some', plain, same, run⟩
  · rw [run]
    rw [last] at resolves
    cases resolves
    refine ⟨fun missing => ?_, fun final same _ => ?_, fun _ _ lone => ?_⟩
    · cases missing
    · cases same
      exact ⟨node, fs, rfl, stands, ready⟩
    · obtain ⟨target, member, -⟩ := lone
      exact absurd member List.not_mem_nil
  · rw [run]
    rw [← same] at resolves enough
    exact loop some' plain stands ready resolves few enough

omit holds fixed reliable warm in
theorem findFile1_leads (loop : LoopLeads machine image start data inodes tree fuel) {path : Str}
    (some' : components path ≠ []) (stands : Stands data inodes ino node) (directory : tree.type ino = .directory)
    (ready : Ready image start data nest fs) (resolves : Resolves tree ino (components path) links out)
    (few : nest + links.length ≤ 7) (enough : weight (components path) links + entryBound ≤ fuel) :
    Leads image start data inodes tree nest links out (ext2fsFindFile1 machine fuel path node fs) := by
  rcases findFile1_cases machine fuel path with ⟨none', -⟩ | ⟨name, named, plain, same, run⟩
  · exact absurd none' some'
  · rw [run, ← directory]
    rw [← same] at resolves enough
    exact loop named plain stands ready resolves few enough

omit holds fixed reliable warm in
theorem weight_cons (word : Str) (names links : List Str) : weight (word :: names) links = weight names links + 1 := by
  rw [weight, weight, List.length_cons]
  omega

omit holds fixed reliable warm in
theorem weight_link (target : Str) (names before after : List Str) :
    weight names (target :: (before ++ after)) = weight (components target) before + weight names after := by
  simp only [weight, List.map_cons, List.map_append, List.sum_cons, List.sum_append]
  omega

omit holds fixed reliable warm in
/-- What a target of slashes only does to a lookup. -/
theorem Leads.of_stray {outcome : Outcome QuikErr Fs (Node × Option FileType)} {middle : Nat} {later : List Str}
    (resolves : Resolves tree middle rest later out) (slashes : ∃ target ∈ links, components target = [])
    (stray : Stray outcome) (stops : rest ≠ [] → ∃ code after, outcome = .error code after) :
    Leads image start data inodes tree nest links out outcome := by
  refine ⟨fun missing => ?_, fun final same plain => ?_, fun _ _ _ => stray⟩
  · cases rest with
    | nil =>
        cases resolves
        cases missing
    | cons word rest => exact stops (List.cons_ne_nil word rest)
  · obtain ⟨target, member, none'⟩ := slashes
    exact absurd none' (plain target member)

omit holds fixed reliable warm in
theorem Leads.failed {code : QuikErr} {after : Fs} :
    Leads image start data inodes tree nest links none (.error code after) := by
  refine ⟨fun _ => ⟨_, _, rfl⟩, fun final same _ => ?_, fun final same _ => ?_⟩
  · cases same
  · cases same

/-- A symlink is followed, and the lookup goes on behind it. -/
theorem link_leads (loop : LoopLeads machine image start data inodes tree fuel) {link old : Node} {child : Nat}
    {target : Str} (linkStands : Stands data inodes child link) (oldStands : Stands data inodes ino old)
    (directory : tree.type ino = .directory) (symlink : tree.target child = some target)
    (ready : Ready image start data nest fs)
    (resolves : Resolves tree (startOf target ino) (components target ++ components (name.dropWhile (· ≠ 47))) links out)
    (few : nest + (links.length + 1) ≤ 7)
    (enough : weight (components (name.dropWhile (· ≠ 47))) (target :: links) + entryBound ≤ fuel) :
    Leads image start data inodes tree nest (target :: links) out
      ((followSymlink machine (ext2fsFindFile1 machine fuel) link old >>= fun found =>
        goOn (fun next => findLoop machine fuel next found.1 found.2) (splitName name).2 found.1 found.2) fs) := by
  obtain ⟨listed, root⟩ := holds.root
  have bound : 0 < entryBound := by decide
  have positive : 0 < fuel := by omega
  have startDirectory : tree.type (startOf target ino) = .directory := by
    unfold startOf
    split
    · exact Tree.type_directory root
    · exact directory
  obtain ⟨rootNode, after, stands, ready', run⟩ := followSymlink_run holds fixed reliable warm linkStands oldStands
    symlink (show nest + 1 ≤ 7 by omega) ready
  by_cases lone : components target = []
  · -- only slashes: the node is the root, and the type stays that of a symlink
    rw [lone, List.nil_append] at resolves
    rcases findFile1_cases machine fuel target with ⟨-, enters⟩ | ⟨word, named, plain, same, -⟩
    · have finds : ext2fsFindFile1 machine fuel target rootNode after = .ok (rootNode, none) after := by
        rw [enters]
        rfl
      rw [followed_ok run finds]
      obtain ⟨stray, stops⟩ := goOn_stray positive name rootNode after
      exact .of_stray resolves ⟨target, List.mem_cons_self, lone⟩ stray stops
    · rw [lone, components_name named plain] at same
      cases same
  · rcases resolves.split with ⟨middle, before, behind, leads, onward, rfl⟩ | ⟨fails', rfl⟩
    · rw [weight_link] at enough
      rw [List.length_append] at few
      have nested := findFile1_leads loop lone stands startDirectory ready' leads (by omega) (by omega)
      by_cases slashes : ∃ other ∈ before, components other = []
      · obtain ⟨other, member, none'⟩ := slashes
        have within : ∃ other ∈ target :: (before ++ behind), components other = [] :=
          ⟨other, List.mem_cons_of_mem _ (List.mem_append_left _ member), none'⟩
        rcases nested.stray middle rfl ⟨other, member, none'⟩ with ⟨code, state, stops⟩ | ⟨found, state, finds⟩
        · rw [followed_error run stops]
          exact .of_stray onward within (.inl ⟨_, _, rfl⟩) fun _ => ⟨_, _, rfl⟩
        · rw [followed_ok run finds]
          obtain ⟨stray, stops⟩ := goOn_stray positive name found state
          exact .of_stray onward within stray stops
      · have plain : ∀ other ∈ before, components other ≠ [] := fun other member none' =>
          slashes ⟨other, member, none'⟩
        obtain ⟨found, state, finds, foundStands, ready''⟩ := nested.found middle rfl plain
        rw [followed_ok run finds]
        have rest := goOn_leads loop foundStands ready'' onward (by omega) (by omega)
        refine ⟨rest.missing, fun final same all => ?_, fun final same slashes => ?_⟩
        · obtain ⟨last, ended, ends, lastStands, ready⟩ := rest.found final same fun other member =>
            all other (List.mem_cons_of_mem _ (List.mem_append_right _ member))
          have count : nest + 1 + before.length + behind.length = nest + (target :: (before ++ behind)).length := by
            rw [List.length_cons, List.length_append]
            omega
          rw [count] at ready
          exact ⟨last, ended, ends, lastStands, ready⟩
        · obtain ⟨other, member, none'⟩ := slashes
          refine rest.stray final same ⟨other, ?_, none'⟩
          obtain rfl | member := List.mem_cons.mp member
          · exact absurd none' lone
          · exact (List.mem_append.mp member).resolve_left fun early => plain other early none'
    · have nested := findFile1_leads loop lone stands startDirectory ready' fails' (by omega) (by
        rw [weight, List.map_cons, List.sum_cons] at enough
        rw [weight]
        omega)
      obtain ⟨code, state, stops⟩ := nested.missing rfl
      rw [followed_error run stops]
      exact .failed

/-- The loop finds what the reference finds, with enough fuel. -/
theorem findLoop_leads (fuel : Nat) : LoopLeads machine image start data inodes tree fuel := by
  have bound : 0 < entryBound := by decide
  induction fuel with
  | zero =>
      intro name node ino nest links out fs some' plain stands ready resolves few enough
      omega
  | succ fuel ih =>
      intro name node ino nest links out fs some' plain stands ready resolves few enough
      have word := word_ne_nil some' plain
      have names : components name = (splitName name).1 :: components (name.dropWhile (· ≠ 47)) :=
        components_name some' plain
      rw [names] at resolves enough
      rw [weight_cons] at enough
      rw [findLoop_eq]
      cases resolves with
      | missing none' =>
          by_cases type : tree.type ino = .directory
          · obtain ⟨listed, directory⟩ := Tree.of_type_directory type
            have few' := holds.few_entries directory
            obtain ⟨code, after, run⟩ := holds.lookup_none fixed reliable warm stands directory word
              (show listed.length < fuel by omega) none' ready
            rw [if_neg (not_not.mpr type), Prog.bind_run_error run]
            exact .failed
          · rw [if_pos type]
            exact .failed
      | @step _ child _ _ _ _ found notLink resolves =>
          obtain ⟨listed, directory⟩ := Tree.of_lookup found
          have few' := holds.few_entries directory
          have other : tree.type child ≠ .symlink := by
            intro symlink
            obtain ⟨target, same⟩ := Tree.type_symlink.mp symlink
            rw [notLink] at same
            cases same
          obtain ⟨entry, after, run, entryStands, ready'⟩ := holds.lookup_some fixed reliable warm stands directory word
            (show listed.length < fuel by omega) found ready
          rw [if_neg (not_not.mpr (Tree.type_directory directory)), Prog.bind_run_ok run, if_neg other, Prog.pure_bind]
          exact goOn_leads ih entryStands ready' resolves few (by omega)
      | @link _ child _ target _ links _ found symlink resolves =>
          obtain ⟨listed, directory⟩ := Tree.of_lookup found
          have few' := holds.few_entries directory
          have type : tree.type child = .symlink := Tree.type_symlink.mpr ⟨target, symlink⟩
          obtain ⟨entry, after, run, entryStands, ready'⟩ := holds.lookup_some fixed reliable warm stands directory word
            (show listed.length < fuel by omega) found ready
          rw [if_neg (not_not.mpr (Tree.type_directory directory)), Prog.bind_run_ok run, if_pos type]
          exact link_leads holds fixed reliable warm ih entryStands stands (Tree.type_directory directory) symlink ready'
            resolves few (by omega)

end Lookups

/-! ## What is found -/

/-- The type of the file is the one that was asked for. -/
def Tree.Accepts (tree : Tree) (expecttype : FileType) (ino : Nat) : Prop :=
  (expecttype = .reg → tree.type ino = .reg) ∧ (expecttype = .directory → tree.type ino = .directory)

/-- The lookup succeeds with the reference, and then has the same inode and type. -/
structure FindsAs (tree : Tree) (expecttype : FileType) (out : Option Nat)
    (outcome : Outcome QuikErr Fs (Node × FileType)) : Prop where
  found : ∀ ino, out = some ino → tree.Accepts expecttype ino →
    ∃ node after, outcome = .ok (node, tree.type ino) after ∧ node.ino = ino
  refused : (∀ ino, out = some ino → ¬tree.Accepts expecttype ino) → ∃ code after, outcome = .error code after

section Results

variable {path : Str} {expecttype : FileType} {root : Node}

theorem findFile_ok {type : Option FileType} {after : Fs}
    (run : ext2fsFindFile1 machine fuel path root { fs with symlinknest := 0 } = .ok (node, type) after) :
    ext2fsFindFile machine fuel path root expecttype fs =
      if expecttype = .reg ∧ type.getD .directory ≠ .reg then .error .fsNotReg after
      else if expecttype = .directory ∧ type.getD .directory ≠ .directory then .error .fsNotDir after
      else .ok (node, type.getD .directory) after := by
  unfold ext2fsFindFile
  rw [Prog.update_bind, Prog.bind_run_ok run]
  dsimp only
  split
  · rfl
  split
  · rfl
  · rfl

theorem findFile_error {code : QuikErr} {after : Fs}
    (run : ext2fsFindFile1 machine fuel path root { fs with symlinknest := 0 } = .error code after) :
    ext2fsFindFile machine fuel path root expecttype fs = .error code after := by
  unfold ext2fsFindFile
  rw [Prog.update_bind, Prog.bind_run_error run]

/-- A node is refused for its type, or returned with it. -/
theorem findFile_typed {type : Option FileType} {after : Fs}
    (run : ext2fsFindFile1 machine fuel path root { fs with symlinknest := 0 } = .ok (node, type) after)
    (same : type.getD .directory = tree.type ino) :
    (tree.Accepts expecttype ino →
      ext2fsFindFile machine fuel path root expecttype fs = .ok (node, tree.type ino) after) ∧
    (¬tree.Accepts expecttype ino → ∃ code, ext2fsFindFile machine fuel path root expecttype fs = .error code after) := by
  rw [findFile_ok run, same]
  constructor
  · rintro ⟨reg, directory⟩
    rw [if_neg fun both => both.2 (reg both.1), if_neg fun both => both.2 (directory both.1)]
  · intro refused
    by_cases reg : expecttype = .reg ∧ tree.type ino ≠ .reg
    · exact ⟨_, if_pos reg⟩
    · have directory : expecttype = .directory ∧ tree.type ino ≠ .directory := by
        by_contra directory
        refine refused ⟨fun expects => ?_, fun expects => ?_⟩
        · by_contra other
          exact reg ⟨expects, other⟩
        · by_contra other
          exact directory ⟨expects, other⟩
      exact ⟨_, (if_neg reg).trans (if_pos directory)⟩

/-- A node that is taken for a symlink is refused, or returned as one. -/
theorem findFile_stray {after : Fs}
    (run : ext2fsFindFile1 machine fuel path root { fs with symlinknest := 0 } = .ok (node, some .symlink) after) :
    (∃ code, ext2fsFindFile machine fuel path root expecttype fs = .error code after) ∨
      (expecttype ≠ .reg ∧ expecttype ≠ .directory ∧
        ext2fsFindFile machine fuel path root expecttype fs = .ok (node, .symlink) after) := by
  rw [findFile_ok run]
  cases expecttype with
  | reg => exact .inl ⟨_, rfl⟩
  | directory => exact .inl ⟨_, rfl⟩
  | symlink => exact .inr ⟨by decide, by decide, rfl⟩
  | unknown => exact .inr ⟨by decide, by decide, rfl⟩

end Results

/-- What the lookup of a whole path comes to; slashes only are the root. -/
structure PathLeads (tree : Tree) (links : List Str) (out : Option Nat)
    (outcome : Outcome QuikErr Fs (Node × Option FileType)) : Prop where
  missing : out = none → ∃ code after, outcome = .error code after
  found : ∀ ino, out = some ino → (∀ target ∈ links, components target ≠ []) → ∃ node type after,
    outcome = .ok (node, type) after ∧ type.getD .directory = tree.type ino ∧ node.ino = ino
  stray : ∀ ino, out = some ino → (∃ target ∈ links, components target = []) → Stray outcome

theorem path_leads {path : Str} (fixed : machine.Fixed image) (reliable : machine.Reliable)
    (warm : Warm image start start) (mounted : start.root = some data)
    (holds : HoldsTree machine image start data inodes tree)
    (resolves : Resolves tree Tree.root (components path) links out) (few : links.length ≤ 7)
    (enough : weight (components path) links + entryBound ≤ fuel) :
    PathLeads tree links out (ext2fsFindFile1 machine fuel path data.diropen { start with symlinknest := 0 }) := by
  obtain ⟨listed, root⟩ := holds.root
  have directory := Tree.type_directory root
  by_cases empty : components path = []
  · rw [empty] at resolves
    cases resolves
    rcases findFile1_cases machine fuel path with ⟨-, run⟩ | ⟨name, named, simple, same, -⟩
    · rw [run]
      refine ⟨fun missing => ?_, fun ino same _ => ?_, fun ino _ slashes => ?_⟩
      · cases missing
      · cases same
        exact ⟨data.diropen, none, _, rfl, directory.symm, rfl⟩
      · obtain ⟨target, member, -⟩ := slashes
        exact absurd member List.not_mem_nil
    · rw [empty, components_name named simple] at same
      cases same
  · have ready : Ready image start data 0 { start with symlinknest := 0 } :=
      ⟨(Later.refl warm).nested 0, mounted, rfl⟩
    have leads := findFile1_leads (findLoop_leads holds fixed reliable warm fuel) empty holds.diropen directory ready
      resolves (by omega) enough
    refine ⟨leads.missing, fun ino same plain => ?_, leads.stray⟩
    obtain ⟨node, after, run, stands, -⟩ := leads.found ino same plain
    exact ⟨node, _, after, run, rfl, stands.number⟩

theorem slashes_or_plain (links : List Str) :
    (∀ target ∈ links, components target ≠ []) ∨ ∃ target ∈ links, components target = [] := by
  by_cases slashes : ∃ target ∈ links, components target = []
  · exact .inr slashes
  · exact .inl fun target member none' => slashes ⟨target, member, none'⟩

/-- What the reference does not find is refused. -/
theorem PathLeads.refused {path : Str} {root : Node} {expecttype : FileType}
    (leads : PathLeads tree links out (ext2fsFindFile1 machine fuel path root { fs with symlinknest := 0 }))
    (unwanted : ∀ ino, out = some ino → ¬tree.Accepts expecttype ino) :
    ∃ code after, ext2fsFindFile machine fuel path root expecttype fs = .error code after := by
  cases result : out with
  | none =>
      obtain ⟨code, after, run⟩ := leads.missing result
      exact ⟨code, after, findFile_error run⟩
  | some ino =>
      have refuses := unwanted ino result
      rcases slashes_or_plain links with plain | slashes
      · obtain ⟨node, type, after, run, same, -⟩ := leads.found ino result plain
        obtain ⟨code, run⟩ := (findFile_typed run same).2 refuses
        exact ⟨code, after, run⟩
      · rcases leads.stray ino result slashes with ⟨code, after, run⟩ | ⟨node, after, run⟩
        · exact ⟨code, after, findFile_error run⟩
        · rcases findFile_stray run with ⟨code, run⟩ | ⟨reg, directory, -⟩
          · exact ⟨code, after, run⟩
          · exact absurd ⟨fun same => absurd same reg, fun same => absurd same directory⟩ refuses

/-- A path is found as in the reference, if and only if it is not found there or no target
on the way consists of slashes only. -/
theorem findFile_iff (machine : Machine) (image : Nat → Image) (start : Fs) (data : Ext2Data) (inodes : Nat → Inode)
    (tree : Tree) (path : Str) (expecttype : FileType) (links : List Str) (out : Option Nat)
    (fixed : machine.Fixed image) (reliable : machine.Reliable) (warm : Warm image start start)
    (mounted : start.root = some data) (holds : HoldsTree machine image start data inodes tree)
    (resolves : Resolves tree Tree.root (components path) links out) (few : links.length ≤ 7) :
    ∃ least, ∀ fuel, least ≤ fuel →
      (FindsAs tree expecttype out (ext2fsFindFile machine fuel path data.diropen expecttype start) ↔
        (∀ ino, out = some ino → ¬tree.Accepts expecttype ino) ∨ ∀ target ∈ links, components target ≠ []) := by
  refine ⟨weight (components path) links + entryBound, fun fuel enough => ?_⟩
  have leads := path_leads fixed reliable warm mounted holds resolves few enough
  constructor
  · intro finds
    by_contra neither
    obtain ⟨wanted, slashes⟩ := not_or.mp neither
    simp only [not_forall, not_not] at wanted
    obtain ⟨ino, result, accepts⟩ := wanted
    obtain ⟨node, after, returned, -⟩ := finds.found ino result accepts
    have plain : tree.type ino ≠ .symlink := by
      intro symlink
      obtain ⟨target, same⟩ := Tree.type_symlink.mp symlink
      rw [result] at resolves
      rw [resolves.plain holds.root_plain holds.root_plain] at same
      cases same
    rcases leads.stray ino result ((slashes_or_plain links).resolve_left slashes) with ⟨code, final, run⟩ | ⟨stray, final, run⟩
    · rw [findFile_error run] at returned
      cases returned
    · rcases findFile_stray run with ⟨code, run⟩ | ⟨-, -, run⟩
      · rw [run] at returned
        cases returned
      · rw [run] at returned
        exact plain (Prod.mk.inj (Outcome.ok.inj returned).1).2.symm
  · intro condition
    refine ⟨fun ino result accepts => ?_, leads.refused⟩
    have plain := condition.resolve_left fun unwanted => unwanted ino result accepts
    obtain ⟨node, type, after, run, same, number⟩ := leads.found ino result plain
    exact ⟨node, after, (findFile_typed run same).1 accepts, number⟩

section Samples

/-- A volume with four inodes: the root directory, two symlinks `a` and `l`, to `/` and to
`f`, and the file `f`. -/
def linksDisk : Image := .ofRuns [
  (32768 + 5 * 1024,
    [2, 0, 0, 0, 12, 0, 1, 2, 46, 0, 0, 0, 2, 0, 0, 0, 12, 0, 2, 2, 46, 46, 0, 0,
     11, 0, 0, 0, 12, 0, 1, 7, 97, 0, 0, 0, 13, 0, 0, 0, 12, 0, 1, 7, 108, 0, 0, 0,
     12, 0, 0, 0, 12, 0, 1, 1, 102, 0, 0, 0]),
  (32768 + 1024 + 8, [6]),
  (32768 + 6 * 1024 + 1 * 128 + 4, [60]),
  (32768 + 6 * 1024 + 1 * 128 + 40, [5]),
  (32768 + 6 * 1024 + 10 * 128 + 4, [1]),
  (32768 + 6 * 1024 + 10 * 128 + 40, [47]),
  (32768 + 6 * 1024 + 12 * 128 + 4, [1]),
  (32768 + 6 * 1024 + 12 * 128 + 40, [102])]

def linksMachine : Machine := diskMachine linksDisk

theorem linksMachine_steady : Steady linksMachine fun _ => linksDisk := diskMachine_steady linksDisk

def linksInodes (ino : Nat) : Inode :=
  ((ext2fsReadInode linksMachine smallVolume ino selfDisk).value?).getD { raw := fun _ => 0 }

def linksData : Ext2Data := { smallVolume with rootInode := linksInodes Tree.root }

def linksStart : Fs := { selfDisk with root := some linksData }

def linksEntries : List Entry :=
  [{ inode := 2, direntlen := 12, filetype := 2, filename := str "." },
   { inode := 2, direntlen := 12, filetype := 2, filename := str ".." },
   { inode := 11, direntlen := 12, filetype := 7, filename := str "a" },
   { inode := 13, direntlen := 12, filetype := 7, filename := str "l" },
   { inode := 12, direntlen := 12, filetype := 1, filename := str "f" }]

def linksTree : Tree := fun ino =>
  if ino = 2 then some (.directory (linksEntries.map fun entry => (entry.filename, entry.inode)))
  else if ino = 11 then some (.symlink (str "/"))
  else if ino = 12 then some .reg
  else if ino = 13 then some (.symlink (str "f"))
  else none

theorem linksStart_warm : Warm (fun _ => linksDisk) linksStart linksStart :=
  ⟨.refl _, .unallocated _, .unallocated _⟩

/-- The numbers of the tree. -/
theorem linksTree_cases {ino : Nat} {object : Object} (known : linksTree ino = some object) :
    ino = 2 ∨ ino = 11 ∨ ino = 12 ∨ ino = 13 := by
  by_contra other
  obtain ⟨root, first, file, second⟩ : ino ≠ 2 ∧ ino ≠ 11 ∧ ino ≠ 12 ∧ ino ≠ 13 := by omega
  unfold linksTree at known
  rw [if_neg root, if_neg first, if_neg file, if_neg second] at known
  cases known

/-- Of the volume a read of an inode needs the superblock. -/
theorem readInode_of_sblock {other : Ext2Data} (sblock : other.sblock = data.sblock) (ino : Nat) :
    ext2fsReadInode machine other ino = ext2fsReadInode machine data ino := by
  obtain ⟨_, rootInode⟩ := other
  obtain rfl : _ = data.sblock := sblock
  rfl

theorem linksTree_read {ino : Nat} (present : ino = 2 ∨ ino = 11 ∨ ino = 12 ∨ ino = 13) :
    ∃ after, ext2fsReadInode linksMachine linksData ino linksStart = .ok (linksInodes ino) after := by
  have steady := linksMachine_steady
  have some' : (ext2fsReadInode linksMachine smallVolume ino selfDisk).value?.isSome = true := by
    obtain rfl | rfl | rfl | rfl := present
    · decide +kernel
    · decide +kernel
    · decide +kernel
    · decide +kernel
  obtain ⟨inode, known⟩ := Option.isSome_iff_exists.mp some'
  obtain ⟨first, read⟩ := Outcome.value?_eq_some.mp known
  have repeats : Repeats (fun _ => linksDisk) selfDisk.part EqualSizes False (fun _ => True)
      (ext2fsReadInode linksMachine smallVolume ino) :=
    readInode_repeats steady.fixed (.inr steady.reliable) EqualSizes.stable EqualSizes.sizes _ _
  have later : Later (fun _ => linksDisk) selfDisk linksStart :=
    ⟨rfl, rfl, ⟨.refl _, .unallocated _, .unallocated _⟩, linksStart_warm, rfl⟩
  obtain ⟨after, run, -⟩ := repeats.later_ok (readInode_near _ _) later read
  have same : linksInodes ino = inode := by rw [linksInodes, known, Option.getD_some]
  have volume : ext2fsReadInode linksMachine linksData ino = ext2fsReadInode linksMachine smallVolume ino :=
    readInode_of_sblock rfl ino
  exact ⟨after, by rw [volume, run, same]⟩

theorem linksTree_root : linksTree 2 = some (.directory (linksEntries.map fun entry => (entry.filename, entry.inode))) :=
  rfl

theorem linksEntries_typed : ∀ entry ∈ linksEntries, entry.filetype ≠ 0 ∧ entry.inode ≠ 0 ∧
    (linksTree entry.inode).isSome = true ∧ linksTree.type entry.inode = .ofDirent entry.filetype := by
  decide

theorem linksTree_held : HoldsTree linksMachine (fun _ => linksDisk) linksStart linksData linksInodes linksTree where
  read ino object known := linksTree_read (linksTree_cases known)
  root := ⟨_, linksTree_root⟩
  rootInode := rfl
  directories ino listed known := by
    obtain rfl : ino = 2 := by
      obtain rfl | rfl | rfl | rfl := linksTree_cases known
      · rfl
      · cases known
      · cases known
      · cases known
    cases linksTree_root.symm.trans known
    refine ⟨linksEntries, ⟨?_, by decide +kernel, ?_, by decide +kernel, ?_, ?_, headers_of_named (by decide)⟩, rfl⟩
    · exact oneBlock_readable _ (by decide +kernel) (by decide +kernel) (by decide +kernel)
    · exact fun entry member => (linksEntries_typed entry member).2.1
    · exact fun entry member => (linksEntries_typed entry member).2.2.1
    · intro entry member
      obtain ⟨states, -, -, type⟩ := linksEntries_typed entry member
      unfold EntryType
      rw [if_pos states]
      exact type
  symlinks ino target known := by
    obtain rfl | rfl | rfl | rfl := linksTree_cases known
    · cases known
    · cases known
      exact ⟨by decide, Outcome.value?_eq_some.mp (by decide +kernel)⟩
    · cases known
    · cases known
      exact ⟨by decide, Outcome.value?_eq_some.mp (by decide +kernel)⟩

theorem findFile_sample : ∃ least, ∀ fuel, least ≤ fuel →
    FindsAs linksTree .reg (some 12) (ext2fsFindFile linksMachine fuel (str "l") linksData.diropen .reg linksStart) := by
  have steady := linksMachine_steady
  have resolves : Resolves linksTree Tree.root (components (str "l")) [str "f"] (some 12) := by
    have names : components (str "l") = [str "l"] := rfl
    have behind : components (str "f") ++ [] = [str "f"] := rfl
    rw [names]
    refine .link (show linksTree.lookup Tree.root (str "l") = some 13 from rfl) rfl ?_
    rw [behind]
    exact .step (show linksTree.lookup 2 (str "f") = some 12 from rfl) rfl (.done 12)
  obtain ⟨least, finds⟩ := findFile_iff linksMachine (fun _ => linksDisk) linksStart linksData linksInodes linksTree
    (str "l") .reg _ _ steady.fixed steady.reliable linksStart_warm rfl linksTree_held resolves (by decide)
  exact ⟨least, fun fuel enough => (finds fuel enough).mpr (.inr (by decide))⟩

/-- A target of slashes only is the root directory, which is refused as none. -/
theorem findFile_slashes :
    ¬∀ (machine : Machine) (image : Nat → Image) (start : Fs) (data : Ext2Data) (inodes : Nat → Inode) (tree : Tree)
      (path : Str) (expecttype : FileType) (links : List Str) (out : Option Nat), machine.Fixed image →
      machine.Reliable → Warm image start start → start.root = some data →
      HoldsTree machine image start data inodes tree → Resolves tree Tree.root (components path) links out →
      links.length ≤ 7 → ∃ least, ∀ fuel, least ≤ fuel →
        FindsAs tree expecttype out (ext2fsFindFile machine fuel path data.diropen expecttype start) := by
  intro claim
  have steady := linksMachine_steady
  have names : components (str "/a") = [str "a"] := rfl
  have lone : components (str "/") = [] := rfl
  have resolves : Resolves linksTree Tree.root (components (str "/a")) [str "/"] (some 2) := by
    rw [names]
    refine .link (show linksTree.lookup Tree.root (str "a") = some 11 from rfl) rfl ?_
    rw [lone]
    exact .done 2
  obtain ⟨least, finds⟩ := claim linksMachine (fun _ => linksDisk) linksStart linksData linksInodes linksTree
    (str "/a") .directory _ _ steady.fixed steady.reliable linksStart_warm rfl linksTree_held resolves (by decide)
  have leads := path_leads steady.fixed steady.reliable linksStart_warm rfl linksTree_held resolves (by decide)
    (Nat.le_add_left (weight (components (str "/a")) [str "/"] + entryBound) least)
  have accepts : linksTree.Accepts .directory 2 := ⟨fun same => FileType.noConfusion same, fun _ => rfl⟩
  obtain ⟨node, after, returned, -⟩ := (finds _ (Nat.le_add_right _ _)).found 2 rfl accepts
  rcases leads.stray 2 rfl ⟨str "/", List.mem_singleton.mpr rfl, lone⟩ with ⟨code, final, run⟩ | ⟨stray, final, run⟩
  · rw [findFile_error run] at returned
    cases returned
  · rcases findFile_stray run with ⟨code, run⟩ | ⟨-, other, -⟩
    · rw [run] at returned
      cases returned
    · exact other rfl

end Samples

end IQuik.Ext2
