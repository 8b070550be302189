import IQuik.Data.Buffers
import IQuik.Ext2.Bounds
import IQuik.Loader.Printing
import IQuik.Program.Triples

namespace IQuik.Loader

open IQuik.Data IQuik.Program IQuik.Storage IQuik.Ext2

/-! # Showing a file: `file_cmd_cat` -/

/-- The size of the block for `message`, if there is one, and what was printed. -/
structure Shown where
  block : Option Nat
  printed : Str

/-- The globals with what is stored at `message`. -/
abbrev Showing := (Fs × Buffer) × Shown

abbrev ShowProg := Prog QuikErr Showing

section Cat

variable (machine : Machine) (fuel : Nat) (defaultDev : EnvDev)

/-- The answer of the heap to one request. -/
def askHeap (size : Nat) : FsProg Bool := fun fs =>
  .ok (machine.grants fs.mallocs size) { fs with mallocs := fs.mallocs + 1 }

/-- `file_path`, with `ERR_ENV_CURRENT_BAD` replaced. -/
def catPath (p : Str) : FsProg Path := do
  let room ← askHeap machine (p.length + 1 + 12)
  match filePath p defaultDev room .start with
  | .ok path _ => do
      let device ← Prog.defined path.device
      pure { device := device, part := path.part, path := path.path }
  | .error code _ => Prog.fail (if code = .envCurrentBad then .envDefaultBad else code)
  | _ => Prog.undefined

/-- `message = malloc (len)`; the result tells whether it is not a null pointer. -/
def mallocMessage (len : Nat) : ShowProg Bool := fun state =>
  let granted := machine.grants state.1.1.mallocs len
  .ok granted (({ state.1.1 with mallocs := state.1.1.mallocs + 1 }, .blank),
    { state.2 with block := if granted then some len else none })

/-- `message[len] = 0`. -/
def endMessage (len : Nat) : ShowProg Unit :=
  Prog.update fun state => ((state.1.1, state.1.2.store len 1 fun _ => 0), state.2)

/-- What can be read at `message`; `garbage` was there before. -/
def messageCells (garbage : Nat → UInt8) (message : Buffer) : Cells := fun i => (message i).getD (garbage i)

/-- `printk ("%s", message)`. -/
def printMessage (garbage : Nat → UInt8) (len : Nat) : ShowProg Unit := do
  let message ← Prog.view fun state : Showing => (messageCells garbage state.1.2).string (len + 1) 0
  let message ← Prog.defined message
  let text ← Prog.defined (vprintk (str "%s") [.text (some message)])
  Prog.update fun state => (state.1, { state.2 with printed := state.2.printed ++ text })

/-- `file_cmd_cat`. Where `message` is a null pointer, the `err` that is returned is that of
`file_len`. -/
def fileCmdCat (garbage : Nat → UInt8) (p : Str) : ShowProg Unit :=
  if p = [] then Prog.fail .cmdBadParam
  else do
    let path ← Prog.onFirst (Prog.onFirst (catPath machine defaultDev p))
    let len ← Prog.onFirst (Prog.onFirst (fileLen machine fuel path))
    let granted ← mallocMessage machine len
    if granted then do
      Prog.onFirst (fileLoad machine fuel path)
      endMessage len
      printMessage garbage len
    else pure ()

end Cat

/-- The bytes of a file up to its first NUL, or up to its end. -/
def fileText (image : Nat → Image) (part : Part) (node : Node) : Str :=
  ((List.range node.inode.size).map (fileByte image part node)).takeWhile (· ≠ 0)

/-- What was stored lies in the block. -/
def Inside (after : Showing) : Prop := ∀ index, (∀ size ∈ after.2.block, size ≤ index) → after.1.2 index = none

/-- The call returns and stores nothing behind the block, and `ERR_NONE` is returned only when there
was memory and the file was printed. -/
structure ShownHonestly (image : Nat → Image) (before : Showing) (outcome : Outcome QuikErr Showing Unit) : Prop where
  returns : outcome.state? ≠ none
  inside : ∀ after, outcome.state? = some after → Inside after
  memory : ∀ after, outcome = .ok () after → after.2.block ≠ none
  shown : ∀ after, outcome = .ok () after → ∃ node text, after.1.1.file = some node ∧
    vprintk (str "%s") [.text (some (fileText image after.1.1.part node))] = some text ∧
    after.2.printed = before.2.printed ++ text

/-- Before `malloc` nothing is stored. -/
def showing (fs : Fs) (printed : Str) : Showing := ((fs, .blank), { block := none, printed := printed })

/-- There is memory for the message, and `file_load` returns an error. -/
def LoadFails (machine : Machine) (fuel : Nat) (path : Path) (len : Nat) (opened : Fs) : Prop :=
  machine.grants opened.mallocs len = true ∧
    ∃ code after, fileLoad machine fuel path ({ opened with mallocs := opened.mallocs + 1 }, .blank) = .error code after

/-- `file_path`, `file_len` or, with memory, `file_load` returns an error. -/
def CatFails (machine : Machine) (fuel : Nat) (defaultDev : EnvDev) (p : Str) (fs : Fs) : Prop :=
  (∃ code named, catPath machine defaultDev p fs = .error code named) ∨
  ∃ path named, catPath machine defaultDev p fs = .ok path named ∧
    ((∃ code opened, fileLen machine fuel path named = .error code opened) ∨
      ∃ len opened, fileLen machine fuel path named = .ok len opened ∧ LoadFails machine fuel path len opened)

section Runs

variable {machine : Machine} {image : Nat → Image} {fuel : Nat} {defaultDev : EnvDev} {p : Str} {fs : Fs}
  {printed : Str} {garbage : Nat → UInt8}

theorem catPath_eq_ok {path : Path} {named : Fs} (found : catPath machine defaultDev p fs = .ok path named) :
    named = { fs with mallocs := fs.mallocs + 1 } := by
  have asks : askHeap machine (p.length + 1 + 12) fs =
      .ok (machine.grants fs.mallocs (p.length + 1 + 12)) { fs with mallocs := fs.mallocs + 1 } := rfl
  rw [catPath, Prog.bind_run_ok asks] at found
  cases run : filePath p defaultDev (machine.grants fs.mallocs (p.length + 1 + 12)) .start with
  | ok spec bi =>
      simp only [run] at found
      cases device : spec.device with
      | none =>
          rw [device] at found
          cases found
      | some known =>
          rw [device] at found
          cases found
          rfl
  | error code bi =>
      simp only [run] at found
      cases found
  | fault | undefined | unfinished =>
      simp only [run] at found
      cases found

/-- Behind the end of the message there is a NUL, so that a string is printed. -/
theorem printMessage_run (garbage : Nat → UInt8) {len : Nat} {message : Buffer} (ends : message len = some 0)
    (fs : Fs) (shown : Shown) :
    ∃ text, printMessage garbage len ((fs, message), shown) =
      .ok () ((fs, message), { shown with printed := shown.printed ++ text }) := by
  have nul : messageCells garbage message (0 + len) = 0 := by
    rw [Nat.zero_add, messageCells, ends, Option.getD_some]
  have whole : (messageCells garbage message).Holds 0 ((List.range len).map (messageCells garbage message)) := by
    intro i inside
    rw [List.getElem_map, List.getElem_range, Nat.zero_add]
  have length : ((List.range len).map (messageCells garbage message)).length = len := by
    rw [List.length_map, List.length_range]
  have found : (messageCells garbage message).string (len + 1) 0 =
      some (((List.range len).map (messageCells garbage message)).takeWhile (· ≠ 0)) :=
    whole.string (by rw [length]; exact nul) (by rw [length]; exact Nat.lt_succ_self len)
  rw [printMessage, Prog.view_bind, found]
  exact ⟨_, rfl⟩

theorem endMessage_run (garbage : Nat → UInt8) (len : Nat) (loaded : Fs × Buffer) (shown : Shown) :
    ∃ text, (endMessage len >>= fun _ => printMessage garbage len) (loaded, shown) =
      .ok () ((loaded.1, loaded.2.store len 1 fun _ => 0), { shown with printed := shown.printed ++ text }) := by
  have ends : loaded.2.store len 1 (fun _ => 0) len = some 0 :=
    Buffer.store_inside (Nat.le_refl _) (Nat.lt_succ_self _)
  rw [endMessage, Prog.update_bind]
  exact printMessage_run garbage ends loaded.1 shown

/-- The call with a message of its own. -/
def loadMessage (machine : Machine) (fuel : Nat) (garbage : Nat → UInt8) (path : Path) (len : Nat) : ShowProg Unit := do
  Prog.onFirst (fileLoad machine fuel path)
  endMessage len
  printMessage garbage len

/-- The state in which `malloc` leaves the call. -/
def asked (machine : Machine) (len : Nat) (opened : Fs) (printed : Str) : Showing :=
  (({ opened with mallocs := opened.mallocs + 1 }, .blank),
    { block := if machine.grants opened.mallocs len then some len else none, printed := printed })

/-- A step in front of `malloc` changes the globals only. -/
theorem onFs_ok {α : Type} {program : FsProg α} {value : α} {named : Fs} (run : program fs = .ok value named) :
    Prog.onFirst (Prog.onFirst program) (showing fs printed) = .ok value (showing named printed) :=
  Prog.onFirst_eq_ok.mpr ⟨Prog.onFirst_eq_ok.mpr ⟨run, rfl⟩, rfl⟩

/-- Nothing is stored yet where such a step fails. -/
theorem onFs_fails {α : Type} {program : FsProg α} {code : QuikErr} {named : Fs}
    (run : program fs = .error code named) :
    Prog.Fails (· = showing fs printed) (Prog.onFirst (Prog.onFirst program)) Inside := by
  rintro _ rfl
  exact ⟨code, showing named printed,
    Prog.onFirst_eq_error.mpr ⟨Prog.onFirst_eq_error.mpr ⟨run, rfl⟩, rfl⟩, fun _ _ => rfl⟩

theorem onFs_stops {α : Type} {program : FsProg α} (stops : (program fs).state? = none) :
    (Prog.onFirst (Prog.onFirst program) (showing fs printed)).state? = none :=
  Prog.onFirst_state?_none (Prog.onFirst_state?_none stops)

theorem fileCmdCat_named (garbage : Nat → UInt8) (printed : Str) (some' : p ≠ []) {path : Path} {named : Fs}
    (found : catPath machine defaultDev p fs = .ok path named) :
    fileCmdCat machine fuel defaultDev garbage p (showing fs printed) =
      (Prog.onFirst (Prog.onFirst (fileLen machine fuel path)) >>= fun len => mallocMessage machine len >>= fun granted =>
        if granted then loadMessage machine fuel garbage path len else pure ()) (showing named printed) := by
  rw [fileCmdCat, if_neg some', Prog.bind_run_ok (onFs_ok found)]
  rfl

theorem fileCmdCat_asked (garbage : Nat → UInt8) (printed : Str) {path : Path} {named opened : Fs} {len : Nat}
    (some' : p ≠ []) (found : catPath machine defaultDev p fs = .ok path named)
    (length : fileLen machine fuel path named = .ok len opened) :
    fileCmdCat machine fuel defaultDev garbage p (showing fs printed) =
      (if machine.grants opened.mallocs len then loadMessage machine fuel garbage path len else pure ())
        (asked machine len opened printed) := by
  have asks : mallocMessage machine len (showing opened printed) =
      .ok (machine.grants opened.mallocs len) (asked machine len opened printed) := rfl
  rw [fileCmdCat_named garbage printed some' found, Prog.bind_run_ok (onFs_ok length), Prog.bind_run_ok asks]

theorem loadMessage_error {path : Path} {opened : Fs} {len : Nat} {code : QuikErr} {after : Fs × Buffer}
    (loads : fileLoad machine fuel path ({ opened with mallocs := opened.mallocs + 1 }, .blank) = .error code after) :
    loadMessage machine fuel garbage path len (asked machine len opened printed) =
      .error code (after, (asked machine len opened printed).2) :=
  Prog.bind_run_error (Prog.onFirst_eq_error.mpr ⟨loads, rfl⟩)

/-- A call that fails returns an error, and stores nothing behind the block. -/
theorem fileCmdCat_fails (fixed : machine.Fixed image) (garbage : Nat → UInt8) (printed : Str)
    (unmounted : fs.part.mounted = false)
    (warm : ∀ path named, catPath machine defaultDev p fs = .ok path named → CachesWarm machine image fuel path named)
    (fails : p = [] ∨ CatFails machine fuel defaultDev p fs) :
    ∃ code after, fileCmdCat machine fuel defaultDev garbage p (showing fs printed) = .error code after ∧
      Inside after := by
  by_cases empty : p = []
  · rw [fileCmdCat, if_pos empty]
    exact Prog.Fails.fail (fun _ same => same ▸ fun _ _ => rfl) _ rfl
  obtain ⟨code, named, found⟩ | ⟨path, named, found, ⟨code, opened, length⟩ |
    ⟨len, opened, length, granted, code, after, loads⟩⟩ := fails.resolve_left empty
  · rw [fileCmdCat, if_neg empty]
    exact (onFs_fails found).bind _ rfl
  · rw [fileCmdCat_named garbage printed empty found]
    exact (onFs_fails length).bind _ rfl
  · refine ⟨code, (after, (asked machine len opened printed).2), ?_, fun index behind => ?_⟩
    · rw [fileCmdCat_asked garbage printed empty found length, if_pos granted, loadMessage_error loads]
    · have still : named.part.mounted = false := by
        rw [catPath_eq_ok found]
        exact unmounted
      exact load_failed_inside fixed still (warm path named found) length loads index (behind len (if_pos granted))

/-- A load that succeeds is followed by a store behind its block. -/
theorem loadMessage_ok {path : Path} {opened : Fs} {len : Nat} {after : Fs × Buffer}
    (loads : fileLoad machine fuel path ({ opened with mallocs := opened.mallocs + 1 }, .blank) = .ok () after) :
    ∃ text, loadMessage machine fuel garbage path len (asked machine len opened printed) =
      .ok () ((after.1, after.2.store len 1 fun _ => 0),
        { (asked machine len opened printed).2 with printed := printed ++ text }) := by
  have step : Prog.onFirst (fileLoad machine fuel path) (asked machine len opened printed) =
      .ok () (after, (asked machine len opened printed).2) := Prog.onFirst_eq_ok.mpr ⟨loads, rfl⟩
  rw [loadMessage, Prog.bind_run_ok step]
  exact endMessage_run garbage len after (asked machine len opened printed).2

/-- A call with memory is honest only if the load fails. -/
theorem honest_fails {path : Path} {named opened : Fs} {len : Nat} (some' : p ≠ [])
    (found : catPath machine defaultDev p fs = .ok path named)
    (length : fileLen machine fuel path named = .ok len opened)
    (honest : ShownHonestly image (showing fs printed)
      (fileCmdCat machine fuel defaultDev garbage p (showing fs printed))) :
    LoadFails machine fuel path len opened := by
  have run := fileCmdCat_asked garbage printed some' found length
  cases granted : machine.grants opened.mallocs len with
  | false =>
      rw [granted, if_neg Bool.false_ne_true] at run
      refine absurd ?_ (honest.memory _ run)
      exact if_neg (granted ▸ Bool.false_ne_true)
  | true =>
      refine ⟨granted, ?_⟩
      rw [granted, if_pos rfl] at run
      cases loads : fileLoad machine fuel path ({ opened with mallocs := opened.mallocs + 1 }, .blank) with
      | error code after => exact ⟨code, after, rfl⟩
      | ok value after =>
          obtain ⟨text, stores⟩ := loadMessage_ok loads
          have inside := honest.inside _ (by rw [run, stores]; rfl) len fun size block => ?_
          · have stored : after.2.store len 1 (fun _ => 0) len = some 0 :=
              Buffer.store_inside (Nat.le_refl _) (Nat.lt_succ_self _)
            exact absurd (stored.symm.trans inside) (Option.some_ne_none _)
          · have same : some len = some size := (if_pos granted).symm.trans block
            exact Nat.le_of_eq (Option.some.inj same).symm
      | fault | undefined | unfinished =>
          refine absurd ?_ honest.returns
          rw [run]
          exact Prog.bind_state?_none (Prog.onFirst_state?_none (by rw [asked, loads]; rfl))

/-- A call is safe and honest exactly when it fails before `malloc`, or with memory in
`file_load`. -/
theorem shown_honestly_iff (machine : Machine) (image : Nat → Image) (fixed : machine.Fixed image) (fuel : Nat)
    (defaultDev : EnvDev) (garbage : Nat → UInt8) (p : Str) (fs : Fs) (printed : Str)
    (unmounted : fs.part.mounted = false)
    (warm : ∀ path named, catPath machine defaultDev p fs = .ok path named →
      CachesWarm machine image fuel path named) :
    ShownHonestly image (showing fs printed) (fileCmdCat machine fuel defaultDev garbage p (showing fs printed)) ↔
      p = [] ∨ CatFails machine fuel defaultDev p fs := by
  constructor
  · intro honest
    by_cases empty : p = []
    · exact .inl empty
    right
    cases found : catPath machine defaultDev p fs with
    | error code named => exact .inl ⟨code, named, found⟩
    | ok path named =>
        refine .inr ⟨path, named, found, ?_⟩
        cases length : fileLen machine fuel path named with
        | error code opened => exact .inl ⟨code, opened, rfl⟩
        | ok len opened => exact .inr ⟨len, opened, rfl, honest_fails empty found length honest⟩
        | fault | undefined | unfinished =>
            refine absurd ?_ honest.returns
            rw [fileCmdCat_named garbage printed empty found]
            exact Prog.bind_state?_none (onFs_stops (by rw [length]; rfl))
    | fault | undefined | unfinished =>
        refine absurd ?_ honest.returns
        rw [fileCmdCat, if_neg empty]
        exact Prog.bind_state?_none (onFs_stops (by rw [found]; rfl))
  · intro fails
    obtain ⟨code, after, run, inside⟩ := fileCmdCat_fails fixed garbage printed unmounted warm fails
    rw [run]
    refine ⟨Option.some_ne_none _, fun other same => ?_, fun other same => ?_, fun other same => ?_⟩
    · cases same
      exact inside
    · cases same
    · cases same

end Runs

/-- There is no such file. -/
theorem shown_honestly_missing :
    ShownHonestly (fun _ => shortFile) (showing .startUp [])
      (fileCmdCat (diskMachine shortFile) 20 EnvDev.none (fun _ => 0) (str "hd:1/g") (showing .startUp [])) := by
  have missing : ((catPath (diskMachine shortFile) EnvDev.none (str "hd:1/g") >>= fun path =>
      fileLen (diskMachine shortFile) 20 path) .startUp).code? = some .fsNotFound := by decide +kernel
  obtain ⟨after, failed⟩ := Outcome.code?_eq_some.mp missing
  have fails : CatFails (diskMachine shortFile) 20 EnvDev.none (str "hd:1/g") .startUp := by
    obtain found | ⟨path, named, found, length⟩ := Prog.bind_eq_error.mp failed
    · exact .inl ⟨_, _, found⟩
    · exact .inr ⟨path, named, found, .inl ⟨_, _, length⟩⟩
  refine (shown_honestly_iff _ _ (diskMachine_steady shortFile).fixed _ _ _ _ _ _ rfl
    fun path named found => ?_).mpr (.inr fails)
  rw [catPath_eq_ok found]
  exact .of_empty rfl rfl

/-- What is stored behind one byte, and the size of the block, when `/f` is shown. -/
def shownByte (machine : Machine) : Option (Option UInt8 × Option Nat) :=
  (fileCmdCat machine 20 EnvDev.none (fun _ => 0) (str "hd:1/f") (showing .startUp [])).success?.map fun after =>
    (after.1.2 1, after.2.block)

/-- A file of one byte, and the same file without memory for the message. -/
theorem not_shown_honestly :
    ¬ShownHonestly (fun _ => shortFile) (showing .startUp [])
      (fileCmdCat (diskMachine shortFile) 20 EnvDev.none (fun _ => 0) (str "hd:1/f") (showing .startUp [])) ∧
    ¬ShownHonestly (fun _ => shortFile) (showing .startUp [])
      (fileCmdCat { diskMachine shortFile with grants := fun _ size => size ≠ 1 } 20 EnvDev.none (fun _ => 0)
        (str "hd:1/f") (showing .startUp [])) := by
  constructor
  · intro honest
    have stored : shownByte (diskMachine shortFile) = some (some 0, some 1) := by decide +kernel
    obtain ⟨after, ends, same⟩ := Option.map_eq_some_iff.mp stored
    obtain ⟨byte, block⟩ := Prod.mk.inj same
    obtain ⟨_, run⟩ := Outcome.success?_eq_some.mp ends
    have inside := honest.inside after (by rw [run]; rfl) 1 fun size known => ?_
    · exact absurd (byte.symm.trans inside) (Option.some_ne_none _)
    · exact Nat.le_of_eq (Option.some.inj (block.symm.trans known)).symm
  · intro honest
    have refused : shownByte { diskMachine shortFile with grants := fun _ size => size ≠ 1 } = some (none, none) := by
      decide +kernel
    obtain ⟨after, ends, same⟩ := Option.map_eq_some_iff.mp refused
    obtain ⟨-, block⟩ := Prod.mk.inj same
    obtain ⟨_, run⟩ := Outcome.success?_eq_some.mp ends
    exact honest.memory after run block

end IQuik.Loader
