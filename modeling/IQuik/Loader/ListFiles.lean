import IQuik.Ext2.Symlinks
import IQuik.Ext2.TreeFiles
import IQuik.Loader.ShowFile

namespace IQuik.Loader

open IQuik.Data IQuik.Program IQuik.Storage IQuik.Ext2

/-! # Listing a directory: `file_cmd_ls`

The functions of `ext2fs.c` on the way are those of the file system, with what
they print.
-/

/-- The globals with what was printed. -/
abbrev ListProg := Prog QuikErr (Fs × Str)

/-- A call of `printk`, for this text. -/
def printText (text : Option Str) : ListProg Unit := do
  let text ← Prog.defined text
  Prog.update fun state => (state.1, state.2 ++ text)

/-- What stands in front of an entry. -/
def typeLabel : FileType → Str
  | .directory => str "<DIR> "
  | .symlink => str "<SYM> "
  | .reg => str "      "
  | .unknown => str "< ? > "

section Ls

variable (machine : Machine) (fuel : Nat) (defaultDev : EnvDev)

/-- The line of an entry that has a name. -/
def listDirent : Option Dirent → ListProg Unit
  | none => pure ()
  | some entry => do
      let inode ← Prog.onFirst (nodeInode machine entry.node)
      printText (vprintk (typeLabel entry.type) [])
      let filename ← Prog.defined (bufferString entry.filename 0 entry.namelen)
      printText (vprintk (str "%d %s\n") [.word inode.size, .text (some filename)])

/-- One iteration of `ext2fs_iterate_dir` without a name. -/
def listEntry (dir : Node) (fpos : Nat) : ListProg Nat := do
  let (direntlen, entry) ← Prog.onFirst (direntAt machine dir fpos)
  listDirent machine entry
  pure ((fpos + direntlen) % 2 ^ 32)

def listFrom (dir : Node) : (fuel fpos : Nat) → ListProg Unit
  | 0, _ => Prog.unfinished
  | fuel + 1, fpos =>
      if fpos < dir.inode.size then do
        let next ← listEntry machine dir fpos
        listFrom dir fuel next
      else Prog.fail .fsNotFound

/-- `ext2fs_iterate_dir` without a name. -/
def listDir (dir : Node) : ListProg Unit := do
  let inode ← Prog.onFirst (nodeInode machine dir)
  listFrom machine { dir with inode } fuel 0

/-- `ext2fs_ls`. -/
def listPath (dirname : Str) : ListProg Unit := do
  match ← Prog.onFirst (Prog.view Fs.root) with
  | none => Prog.fail .fsNotFound
  | some root => do
      let (dirnode, _) ← Prog.onFirst (ext2fsFindFile machine fuel dirname root.diropen .directory)
      let _ ← Prog.attempt (listDir machine fuel dirnode)
      pure ()

/-- `file_ls`. -/
def listFiles (path : Path) : ListProg Unit := do
  Prog.onFirst (openExt2 machine fuel path.device path.part)
  listPath machine fuel path.path

/-- A `path_t` as `printk` meets it. -/
def pathArg (path : Path) : Arg :=
  .fsPath (some { device := some path.device, part := path.part, path := path.path })

/-- `file_cmd_ls`. -/
def fileCmdLs (p : Str) : ListProg Unit := do
  let path ← Prog.onFirst (catPath machine defaultDev (if p = [] then str "/" else p))
  printText (vprintk (str "Listing '%P'\n") [pathArg path])
  listFiles machine fuel path

end Ls

variable {machine : Machine} {fuel : Nat} {dir : Node}

/-! ## What is read while it lists -/

section Reading

variable {text : Option Str} {state after : Fs × Str} {code : QuikErr}

theorem printText_eq_ok (run : printText text state = .ok () after) : after.1 = state.1 := by
  obtain ⟨known, middle, printed, stores⟩ := Prog.bind_eq_ok.mp run
  obtain ⟨-, rfl⟩ := Prog.defined_eq_ok.mp printed
  cases stores
  rfl

theorem printText_ne_error : printText text state ≠ .error code after := by
  intro run
  obtain missing | ⟨known, middle, -, stores⟩ := Prog.bind_eq_error.mp run
  · exact Prog.defined_ne_error missing
  · cases stores

theorem listDirent_eq_ok {entry : Dirent} (run : listDirent machine (some entry) state = .ok () after) :
    ∃ inode, nodeInode machine entry.node state.1 = .ok inode after.1 := by
  obtain ⟨inode, first, reads, run⟩ := Prog.bind_eq_ok.mp run
  obtain ⟨_, second, labels, run⟩ := Prog.bind_eq_ok.mp run
  obtain ⟨filename, third, named, prints⟩ := Prog.bind_eq_ok.mp run
  obtain ⟨-, rfl⟩ := Prog.defined_eq_ok.mp named
  refine ⟨inode, ?_⟩
  rw [printText_eq_ok prints, printText_eq_ok labels]
  exact (Prog.onFirst_eq_ok.mp reads).1

theorem listDirent_eq_error {entry : Dirent} (run : listDirent machine (some entry) state = .error code after) :
    nodeInode machine entry.node state.1 = .error code after.1 := by
  obtain reads | ⟨inode, first, -, run⟩ := Prog.bind_eq_error.mp run
  · exact (Prog.onFirst_eq_error.mp reads).1
  · obtain labels | ⟨_, second, -, run⟩ := Prog.bind_eq_error.mp run
    · exact absurd labels printText_ne_error
    · obtain named | ⟨filename, third, -, prints⟩ := Prog.bind_eq_error.mp run
      · exact absurd named Prog.defined_ne_error
      · exact absurd prints printText_ne_error

/-- A listing ends with an error, if it ends. -/
theorem listFrom_ne_ok {fpos : Nat} : listFrom machine dir fuel fpos state ≠ .ok () after := by
  intro run
  induction fuel generalizing fpos state with
  | zero => cases run
  | succ fuel ih =>
      rw [listFrom] at run
      split at run
      · obtain ⟨next, middle, -, rest⟩ := Prog.bind_eq_ok.mp run
        exact ih rest
      · cases run

/-- The loop fails where it does without printing. -/
theorem listFrom_eq_error {fpos : Nat} (run : listFrom machine dir fuel fpos state = .error code after) :
    iterateDirFrom machine dir none fuel fpos state.1 = .error code after.1 := by
  induction fuel generalizing fpos state with
  | zero => cases run
  | succ fuel ih =>
      rw [listFrom] at run
      rw [iterateDirFrom]
      by_cases more : fpos < dir.inode.size
      · rw [if_pos more] at run ⊢
        obtain fails | ⟨next, middle, lists, rest⟩ := Prog.bind_eq_error.mp run
        · obtain reads | ⟨⟨direntlen, entry⟩, first, reads, fails⟩ := Prog.bind_eq_error.mp fails
          · exact Prog.bind_run_error (Prog.onFirst_eq_error.mp reads).1
          · rw [Prog.bind_run_ok (Prog.onFirst_eq_ok.mp reads).1]
            obtain shows | ⟨_, second, -, returns⟩ := Prog.bind_eq_error.mp fails
            · cases entry with
              | none => cases shows
              | some entry => exact Prog.bind_run_error (listDirent_eq_error shows)
            · cases returns
        · obtain ⟨⟨direntlen, entry⟩, first, reads, shows⟩ := Prog.bind_eq_ok.mp lists
          obtain ⟨_, second, shows, returns⟩ := Prog.bind_eq_ok.mp shows
          obtain ⟨rfl, rfl⟩ := Prog.pure_eq_ok.mp returns
          rw [Prog.bind_run_ok (Prog.onFirst_eq_ok.mp reads).1]
          cases entry with
          | none =>
              obtain ⟨-, rfl⟩ := Prog.pure_eq_ok.mp shows
              exact ih rest
          | some entry =>
              obtain ⟨inode, loads⟩ := listDirent_eq_ok shows
              exact (Prog.bind_run_ok loads).trans (ih rest)
      · rw [if_neg more] at run ⊢
        cases run
        rfl

theorem listDir_state? (listed : (listDir machine fuel dir state).state? = some after) :
    (ext2fsIterateDir machine fuel dir none state.1).state? = some after.1 := by
  cases run : listDir machine fuel dir state with
  | ok _ final =>
      obtain ⟨inode, first, -, lists⟩ := Prog.bind_eq_ok.mp run
      exact absurd lists listFrom_ne_ok
  | error code final =>
      rw [run] at listed
      obtain rfl : final = after := Option.some.inj listed
      unfold ext2fsIterateDir
      obtain reads | ⟨inode, first, reads, lists⟩ := Prog.bind_eq_error.mp run
      · rw [Prog.bind_run_error (Prog.onFirst_eq_error.mp reads).1, Outcome.state?_error]
      · rw [Prog.bind_run_ok (Prog.onFirst_eq_ok.mp reads).1, listFrom_eq_error lists, Outcome.state?_error]
  | fault | undefined | unfinished =>
      rw [run] at listed
      cases listed

/-- A listing that succeeds is one without printing. -/
theorem listFiles_eq_ok {path : Path} (run : listFiles machine fuel path state = .ok () after) :
    fileLs machine fuel path state.1 = .ok () after.1 := by
  obtain ⟨_, first, opens, lists⟩ := Prog.bind_eq_ok.mp run
  rw [fileLs, Prog.bind_run_ok (Prog.onFirst_eq_ok.mp opens).1]
  obtain ⟨root, second, views, lists⟩ := Prog.bind_eq_ok.mp lists
  rw [ext2fsLs, Prog.bind_run_ok (Prog.onFirst_eq_ok.mp views).1]
  cases root with
  | none => cases lists
  | some root =>
      obtain ⟨⟨dirnode, type⟩, third, finds, lists⟩ := Prog.bind_eq_ok.mp lists
      refine (Prog.bind_run_ok (Prog.onFirst_eq_ok.mp finds).1).trans ?_
      exact Prog.ignore_eq_ok.mpr (listDir_state? (Prog.ignore_eq_ok.mp lists))

end Reading

/-! ## What is printed -/

section Lines

variable {size : Nat} {filename : Str}

/-- The line of an object, with the two ends of formats. -/
def listedLine (type : FileType) (size : Nat) (filename : Str) : Str :=
  typeLabel type ++ [0] ++ (signedNumeral (signedWord size) ++ 32 :: filename ++ [10, 0])

theorem typeLabel_printed (type : FileType) : vprintk (typeLabel type) [] = some (typeLabel type ++ [0]) := by
  cases type <;> rfl

/-- A size that is not 2 GB is printed, one from there on as a negative number. -/
theorem sizeName_printed (word : size < 2 ^ 32) (least : size ≠ 0x80000000) (filename : Str) :
    vprintk (str "%d %s\n") [.word size, .text (some filename)] =
      some (signedNumeral (signedWord size) ++ 32 :: filename ++ [10, 0]) := by
  have low : -0x80000000 ≤ signedWord size := by
    unfold signedWord
    split <;> omega
  have high : signedWord size < 0x80000000 := by
    unfold signedWord
    split <;> omega
  have other : signedWord size ≠ -0x80000000 := by
    unfold signedWord
    split <;> omega
  have number : printkns (signedWord size) 10 = some (signedNumeral (signedWord size)) :=
    (printkns_faithful_iff low high).mpr other
  have first : convert 100 [.word size, .text (some filename)] =
      some (signedNumeral (signedWord size), [.text (some filename)]) := by
    change (printkns (signedWord size) 10).bind _ = _
    rw [number]
    rfl
  change (convert 100 [.word size, .text (some filename)]).bind _ = _
  rw [first]
  change some (signedNumeral (signedWord size) ++ 32 :: (filename ++ [10, 0])) = _
  rw [List.append_assoc]
  rfl

/-- The heading of a listing. -/
def heading (path : Path) : Str :=
  str "Listing '" ++ (path.device ++ 58 :: numeral 10 (path.part % (10 * 2 ^ 28)) ++ path.path) ++ [39, 10, 0]

/-- What stands in front of the conversions is printed as it is. -/
theorem vprintk_append {plain : Str} (none' : 37 ∉ plain) (fmt : Str) (args : List Arg) :
    vprintk (plain ++ fmt) args = (vprintk fmt args).map (plain ++ ·) := by
  induction plain with
  | nil => simp
  | cons c rest ih =>
      obtain ⟨other, none'⟩ := not_or.mp (fun found => none' (List.mem_cons.mpr found))
      have literal : vprintk (c :: (rest ++ fmt)) args = (vprintk (rest ++ fmt) args).map (c :: ·) := by
        rw [vprintk]
        · exact fun _ _ percent _ => other percent.symm
        · exact fun percent => absurd percent.symm other
      rw [List.cons_append, literal, ih none', Option.map_map]
      rfl

theorem heading_printed (path : Path) :
    vprintk (str "Listing '%P'\n") [pathArg path] = some (heading path) := by
  have part : printknu path.part 10 = some (numeral 10 (path.part % (10 * 2 ^ 28))) :=
    printknu_eq (by decide) (by decide) path.part
  have named : convert 80 [pathArg path] =
      some (path.device ++ 58 :: numeral 10 (path.part % (10 * 2 ^ 28)) ++ path.path, []) := by
    change ((printknu path.part 10).bind _).bind _ = _
    rw [part]
    change some (path.device ++ [58] ++ numeral 10 (path.part % (10 * 2 ^ 28)) ++ path.path, _) = _
    rw [List.append_assoc path.device]
    rfl
  have split : str "Listing '%P'\n" = str "Listing '" ++ [37, 80, 39, 10] := rfl
  rw [split, vprintk_append (by decide)]
  change ((convert 80 [pathArg path]).bind _).map _ = _
  rw [named]
  rfl

theorem printText_run {known : Str} (state : Fs × Str) :
    printText (some known) state = .ok () (state.1, state.2 ++ known) := rfl

/-- The line of an entry with a name and an inode that can be read. -/
theorem listDirent_run {dirent : Dirent} {inode : Inode} {fs after : Fs}
    (reads : nodeInode machine dirent.node fs = .ok inode after)
    (named : bufferString dirent.filename 0 dirent.namelen = some filename) (least : inode.size ≠ 0x80000000)
    (text : Str) :
    listDirent machine (some dirent) (fs, text) =
      .ok () (after, text ++ listedLine dirent.type inode.size filename) := by
  have first : Prog.onFirst (nodeInode machine dirent.node) (fs, text) = .ok inode (after, text) :=
    Prog.onFirst_eq_ok.mpr ⟨reads, rfl⟩
  have word : inode.size < 2 ^ 32 := Image.le32_lt _ _
  unfold listDirent
  dsimp only
  rw [Prog.bind_run_ok first, typeLabel_printed, Prog.bind_run_ok (printText_run _), named, Prog.defined_some,
    Prog.pure_bind, sizeName_printed word least, printText_run, List.append_assoc]
  rfl

end Lines

section Trees

variable {image : Nat → Image} {start fs : Fs} {data : Ext2Data} {inodes : Nat → Inode} {tree : Tree}
  {ino fpos : Nat} {entry : Entry} {entries : List Entry} {text : Str}

/-- The lines of a directory: one for every name. -/
def listing (tree : Tree) (inodes : Nat → Inode) (listed : List (Str × Nat)) : Str :=
  listed.flatMap fun named =>
    if named.1 = [] then [] else listedLine (tree.type named.2) (inodes named.2).size named.1

/-- What an entry adds. -/
abbrev entryLine (tree : Tree) (inodes : Nat → Inode) (entry : Entry) : Str :=
  listing tree inodes [(entry.filename, entry.inode)]

theorem listing_cons (named : Str × Nat) (rest : List (Str × Nat)) :
    listing tree inodes (named :: rest) = listing tree inodes [named] ++ listing tree inodes rest := by
  simp [listing]

variable (fixed : machine.Fixed image) (reliable : machine.Reliable) (warm : Warm image start start)
  (holds : HoldsTree machine image start data inodes tree)
include fixed reliable warm holds

/-- The line of an entry of the tree. -/
theorem listEntry_run (volume : dir.data = data) (readable : Readable image start.part dir)
    (found : EntryAt (dirImage image start.part dir) fpos entry) (inside : fpos + entry.direntlen ≤ dir.inode.size)
    (known : (tree entry.inode).isSome) (typed : EntryType machine data start entry (tree.type entry.inode))
    (fits : entry.filename = [] → HeaderFits image start.part dir fpos)
    (sized : (inodes entry.inode).size ≠ 0x80000000) (later : Later image start fs) (text : Str) :
    ∃ after, Later image start after ∧ listEntry machine dir fpos (fs, text) =
      .ok (fpos + entry.direntlen) (after, text ++ entryLine tree inodes entry) := by
  have word : dir.inode.size < 2 ^ 32 := Image.le32_lt _ _
  have position : (fpos + entry.direntlen) % 2 ^ 32 = fpos + entry.direntlen := Nat.mod_eq_of_lt (by omega)
  obtain ⟨middle, filename, later', bytes, run⟩ := direntAt_bytes fixed reliable later readable found inside fits
  unfold listEntry
  by_cases unnamed : entry.filename = []
  · rw [if_pos unnamed] at run
    have step : Prog.onFirst (direntAt machine dir fpos) (fs, text) = .ok (entry.direntlen, none) (middle, text) :=
      Prog.onFirst_eq_ok.mpr ⟨run, rfl⟩
    have nothing : entryLine tree inodes entry = [] := by simp [listing, unnamed]
    refine ⟨middle, later', ?_⟩
    rw [Prog.bind_run_ok step, nothing, List.append_nil]
    exact congrArg (fun next => Outcome.ok next (middle, text)) position
  · rw [if_neg unnamed] at run
    -- The node of the entry, and its inode.
    rw [← volume] at typed
    obtain ⟨node, second, reads, number, later''⟩ := direntNode_typed fixed reliable later' typed
    rw [Prog.bind_run_ok reads] at run
    have origin : EntryNode machine image start data node := by
      rw [← volume]
      exact ((direntNode_exits fixed reliable _ _ _).of_ok later' reads).2
    obtain ⟨object, present⟩ := Option.isSome_iff_exists.mp known
    rw [← number] at present
    obtain ⟨first, inode, -⟩ := holds.inode_run fixed reliable warm (holds.stands fixed reliable origin present) present
    have repeats : Repeats image start.part EqualSizes False (fun _ => True) (nodeInode machine node) :=
      nodeInode_repeats fixed (.inr reliable) EqualSizes.stable EqualSizes.sizes node
    obtain ⟨after, again, last, -⟩ := repeats.later_ok (nodeInode_near node) later'' inode
    rw [number] at again
    -- Its line.
    have name : bufferString filename 0 entry.filename.length = some entry.filename :=
      bufferString_eq found.plain (Nat.le_refl _) fun k below _ => bytes k below
    let dirent : Dirent :=
      { namelen := entry.filename.length, filename, node, type := tree.type entry.inode }
    have step : Prog.onFirst (direntAt machine dir fpos) (fs, text) =
        .ok (entry.direntlen, some dirent) (second, text) := Prog.onFirst_eq_ok.mpr ⟨run, rfl⟩
    have shows : listDirent machine (some dirent) (second, text) = .ok () (after,
        text ++ listedLine (tree.type entry.inode) (inodes entry.inode).size entry.filename) :=
      listDirent_run again name sized text
    have line : entryLine tree inodes entry =
        listedLine (tree.type entry.inode) (inodes entry.inode).size entry.filename := by
      simp [listing, unnamed]
    refine ⟨after, last, ?_⟩
    rw [Prog.bind_run_ok step, line]
    refine (Prog.bind_run_ok shows).trans ?_
    exact congrArg (fun next => Outcome.ok next _) position

/-- The lines of the entries that are left. -/
theorem listFrom_run (volume : dir.data = data) (readable : Readable image start.part dir)
    (tiles : Tiles (dirImage image start.part dir) dir.inode.size fpos entries)
    (known : ∀ entry ∈ entries, (tree entry.inode).isSome)
    (typed : ∀ entry ∈ entries, EntryType machine data start entry (tree.type entry.inode))
    (headers : ∀ place ∈ placed fpos entries, place.2.filename = [] → HeaderFits image start.part dir place.1)
    (sized : ∀ entry ∈ entries, (inodes entry.inode).size ≠ 0x80000000) (enough : entries.length < fuel)
    (later : Later image start fs) (text : Str) :
    ∃ after, Later image start after ∧ listFrom machine dir fuel fpos (fs, text) = .error .fsNotFound
      (after, text ++ listing tree inodes (entries.map fun entry => (entry.filename, entry.inode))) := by
  induction entries generalizing fuel fpos fs text with
  | nil =>
      obtain rfl : fpos = dir.inode.size := tiles
      obtain ⟨fuel, rfl⟩ : ∃ less, fuel = less + 1 := ⟨fuel - 1, by omega⟩
      refine ⟨fs, later, ?_⟩
      rw [listFrom, if_neg (Nat.lt_irrefl _), List.map_nil]
      exact congrArg (fun printed => Outcome.error QuikErr.fsNotFound (fs, printed)) (List.append_nil text).symm
  | cons entry rest ih =>
      obtain ⟨fuel, rfl⟩ : ∃ less, fuel = less + 1 := ⟨fuel - 1, by omega⟩
      obtain ⟨here, tiles⟩ := tiles
      have room := here.room
      have inside := tiles.le
      obtain ⟨middle, later', lists⟩ := listEntry_run fixed reliable warm holds volume readable here inside
        (known entry List.mem_cons_self) (typed entry List.mem_cons_self) (headers _ List.mem_cons_self)
        (sized entry List.mem_cons_self) later text
      obtain ⟨after, later'', rest⟩ := ih tiles (fun other member => known other (List.mem_cons_of_mem _ member))
        (fun other member => typed other (List.mem_cons_of_mem _ member))
        (fun place member => headers place (List.mem_cons_of_mem _ member))
        (fun other member => sized other (List.mem_cons_of_mem _ member)) (Nat.lt_of_succ_lt_succ enough) later'
        (text ++ entryLine tree inodes entry)
      refine ⟨after, later'', ?_⟩
      rw [listFrom, if_pos (by omega), Prog.bind_run_ok lists, rest, List.map_cons, listing_cons, List.append_assoc]

/-- The lines of a directory of the tree. -/
theorem listDir_run {listed : List (Str × Nat)} (stands : Stands data inodes ino dir)
    (directory : tree ino = some (.directory listed))
    (sized : ∀ named ∈ listed, (inodes named.2).size ≠ 0x80000000) (enough : listed.length < fuel)
    (later : Later image start fs) (text : Str) :
    ∃ after, Later image start after ∧ listDir machine fuel dir (fs, text) =
      .error .fsNotFound (after, text ++ listing tree inodes listed) := by
  obtain ⟨entries, held, rfl⟩ := holds.directories _ _ directory
  obtain ⟨first, read, -⟩ := holds.inode_run fixed reliable warm stands directory
  have repeats : Repeats image start.part EqualSizes False (fun _ => True) (nodeInode machine dir) :=
    nodeInode_repeats fixed (.inr reliable) EqualSizes.stable EqualSizes.sizes dir
  obtain ⟨middle, again, later', -⟩ := repeats.later_ok (nodeInode_near dir) later read
  have readable : Readable image start.part { dir with inode := inodes ino } :=
    held.readable.of_inode stands.volume rfl
  have tiles : Tiles (dirImage image start.part { dir with inode := inodes ino }) (inodes ino).size 0 entries := by
    have same : dirImage image start.part { dir with inode := inodes ino } =
        dirImage image start.part (treeNode data inodes ino) := dirImage_of_inode stands.volume rfl
    rw [same]
    exact held.tiles
  have headers (place : Nat × Entry) (member : place ∈ placed 0 entries) (unnamed : place.2.filename = []) :
      HeaderFits image start.part { dir with inode := inodes ino } place.1 := by
    have same : FitsLocal image start.part { dir with inode := inodes ino } 8 place.1 8 ↔
        FitsLocal image start.part (treeNode data inodes ino) 8 place.1 8 := FitsLocal.of_inode stands.volume rfl
    exact same.mpr (held.headers place member unnamed)
  have step : Prog.onFirst (nodeInode machine dir) (fs, text) = .ok (inodes ino) (middle, text) :=
    Prog.onFirst_eq_ok.mpr ⟨again, rfl⟩
  have volume : ({ dir with inode := inodes ino } : Node).data = data := stands.volume
  obtain ⟨after, later'', lists⟩ := listFrom_run fixed reliable warm holds volume readable tiles held.known
    held.typed headers (fun entry member => sized _ (List.mem_map_of_mem member)) (by rwa [List.length_map] at enough)
    later' text
  exact ⟨after, later'', (Prog.bind_run_ok step).trans lists⟩

end Trees

section Paths

variable {image : Nat → Image} {start fs named : Fs} {data : Ext2Data} {inodes : Nat → Inode} {tree : Tree}
  {links : List Str} {out : Option Nat} {defaultDev : EnvDev} {p : Str} {path : Path}

/-- What `ls` does for a path: it prints the directory that the path leads to, after the heading, and
reads it as `fileLs`, or it fails behind the heading. -/
structure ListsPath (tree : Tree) (inodes : Nat → Inode) (links : List Str) (out : Option Nat) (printed : Str)
    (unprinted : Outcome QuikErr Fs Unit) (outcome : Outcome QuikErr (Fs × Str) Unit) : Prop where
  found : ∀ ino, LeadsTo tree links out .directory ino → ∃ listed after, tree ino = some (.directory listed) ∧
    outcome = .ok () (after, printed ++ listing tree inodes listed) ∧ unprinted = .ok () after
  refused : (∀ ino, ¬LeadsTo tree links out .directory ino) →
    ∃ code after, outcome = .error code (after, printed)

/-- The listing of a volume that has been mounted, behind its lookup. -/
theorem listFiles_opened (volume : Volume machine image fuel path named start data inodes tree) (printed : Str) :
    listFiles machine fuel path (named, printed) = (do
      let (dirnode, _) ← Prog.onFirst (ext2fsFindFile machine fuel path.path data.diropen .directory)
      let _ ← Prog.attempt (listDir machine fuel dirnode)
      pure ()) (start, printed) := by
  have opens : Prog.onFirst (openExt2 machine fuel path.device path.part) (named, printed) = .ok () (start, printed) :=
    Prog.onFirst_eq_ok.mpr ⟨volume.opens, rfl⟩
  have view : Prog.view Fs.root start = (.ok (some data) start : Outcome QuikErr Fs (Option Ext2Data)) :=
    congrArg (fun root => Outcome.ok root start) volume.mounted
  have views : Prog.onFirst (Prog.view Fs.root) (start, printed) =
      (.ok (some data) (start, printed) : Outcome QuikErr (Fs × Str) (Option Ext2Data)) :=
    Prog.onFirst_eq_ok.mpr ⟨view, rfl⟩
  rw [listFiles, Prog.bind_run_ok opens, listPath, Prog.bind_run_ok views]

/-- On a volume with a tree `ls` prints one line for every name in the directory that the path leads
to, through symlinks perhaps; for no other path it prints a line. -/
theorem directory_listed (fixed : machine.Fixed image) (reliable : machine.Reliable)
    (names : catPath machine defaultDev (if p = [] then str "/" else p) fs = .ok path named)
    (volume : Volume machine image fuel path named start data inodes tree)
    (resolves : Resolves tree Tree.root (components path.path) links out) (few : links.length ≤ 7)
    (sized : ∀ ino listed, out = some ino → tree ino = some (.directory listed) →
      ∀ child ∈ listed, (inodes child.2).size ≠ 0x80000000)
    (enough : weight (components path.path) links + entryBound ≤ fuel) (text : Str) :
    ListsPath tree inodes links out (text ++ heading path) (fileLs machine fuel path named)
      (fileCmdLs machine fuel defaultDev p (fs, text)) := by
  have later : Later image start start := .refl volume.warm
  obtain ⟨finds, refuses⟩ := findFile_leads fixed reliable volume.warm volume.holds resolves few enough later
    volume.mounted (.inr rfl)
  have first : Prog.onFirst (catPath machine defaultDev (if p = [] then str "/" else p)) (fs, text) =
      .ok path (named, text) := Prog.onFirst_eq_ok.mpr ⟨names, rfl⟩
  have command : fileCmdLs machine fuel defaultDev p (fs, text) =
      listFiles machine fuel path (named, text ++ heading path) := by
    rw [fileCmdLs, Prog.bind_run_ok first, heading_printed, Prog.bind_run_ok (printText_run _)]
  rw [command]
  refine ⟨fun ino leads => ?_, fun none' => ?_⟩
  · obtain ⟨listed, directory⟩ := Tree.of_type_directory leads.2.1
    obtain ⟨node, middle, nest, run, stands, ready⟩ := finds ino leads
    have bound := volume.holds.few_entries directory
    obtain ⟨after, -, lists⟩ := listDir_run fixed reliable volume.warm volume.holds stands directory
      (sized ino listed leads.1 directory) (show listed.length < fuel by omega) ready.later (text ++ heading path)
    have step : Prog.onFirst (ext2fsFindFile machine fuel path.path data.diropen .directory)
        (start, text ++ heading path) = .ok (node, .directory) (middle, text ++ heading path) :=
      Prog.onFirst_eq_ok.mpr ⟨run, rfl⟩
    have printed : listFiles machine fuel path (named, text ++ heading path) =
        .ok () (after, text ++ heading path ++ listing tree inodes listed) := by
      rw [listFiles_opened volume]
      refine (Prog.bind_run_ok step).trans ?_
      rw [Prog.ignore_eq_ok, lists, Outcome.state?_error]
    exact ⟨listed, after, directory, printed, listFiles_eq_ok printed⟩
  · obtain ⟨code, after, run⟩ := refuses none'
    have step : Prog.onFirst (ext2fsFindFile machine fuel path.path data.diropen .directory)
        (start, text ++ heading path) = .error code (after, text ++ heading path) :=
      Prog.onFirst_eq_error.mpr ⟨run, rfl⟩
    refine ⟨code, after, ?_⟩
    rw [listFiles_opened volume]
    exact Prog.bind_run_error step

/-- The root directory. -/
def rootPath : Path := { device := str "hd", part := 1, path := str "/" }

/-- `ls hd:1/` on the volume with one file. -/
theorem directory_listed_sample :
    ListsPath kernelTree kernelInodes [] (some 2) (heading rootPath)
      (fileLs kernelMachine (entryBound + 1) rootPath Ext2.kernelOpened)
      (fileCmdLs kernelMachine (entryBound + 1) { device := none, part := 0, partValid := false } (str "hd:1/")
        ({ Ext2.kernelOpened with mallocs := 0 }, [])) := by
  have steady := kernelMachine_steady
  have known := kernelVolume_opens (entryBound + 1)
  have volume : Volume kernelMachine (fun _ => kernelDisk) (entryBound + 1) rootPath Ext2.kernelOpened kernelMounted
      kernelData kernelInodes kernelTree := ⟨known.opens, known.warm, known.mounted, known.holds⟩
  have path : (catPath kernelMachine { device := none, part := 0, partValid := false } (str "hd:1/")
      { Ext2.kernelOpened with mallocs := 0 }).value? = some rootPath := by decide +kernel
  obtain ⟨named, names⟩ := Outcome.value?_eq_some.mp path
  obtain rfl : named = Ext2.kernelOpened := catPath_eq_ok names
  have resolves : Resolves kernelTree Tree.root (components rootPath.path) [] (some 2) := .done 2
  refine directory_listed steady.fixed steady.reliable names volume resolves (by decide)
    (fun ino listed leads directory child member => ?_) (by decide +kernel) []
  obtain ⟨rfl, object⟩ | ⟨-, object⟩ := kernelTree_cases directory
  · obtain rfl : listed = _ := Object.directory.inj object
    obtain rfl := List.mem_singleton.mp member
    decide +kernel
  · cases object

end Paths

end IQuik.Loader
