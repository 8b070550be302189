import IQuik.Data.Buffers
import IQuik.Loader.Parameters
import Mathlib.Data.List.TakeWhile

namespace IQuik.Loader

open IQuik.Data IQuik.Program

/-! # The line editor: `cmd_edit` -/

/-- `cbuff`, the strings that `tabfunc` was given, and what was printed. -/
structure Editor where
  cbuff : Cells
  tabs : List Str
  printed : Str

abbrev EditProg := Prog QuikErr Editor

/-- `cbuff[x] = c`. -/
def storeKey (x : Nat) (c : UInt8) : EditProg Unit := do
  Prog.demand (x < cmdLeng)
  Prog.update fun editor => { editor with cbuff := editor.cbuff.store x [c] }

/-- `(*tabfunc)(cbuff)`, which prints the string. -/
def callTab : EditProg Unit := do
  let line ← Prog.view fun editor => editor.cbuff.string cmdLeng 0
  let line ← Prog.defined line
  Prog.update fun editor => { editor with tabs := editor.tabs ++ [line] }

def printKeys (text : Str) : EditProg Unit := Prog.update fun editor => { editor with printed := editor.printed ++ text }

def keyChar (c : Int) : UInt8 := (c % 256).toNat.toUInt8

/-- One iteration of the loop, with the index behind it. -/
def editKey (tabfunc : Bool) (x : Nat) (c : Int) : EditProg Nat :=
  if c = 9 ∧ tabfunc then do
    storeKey x 0
    callTab
    pure x
  else if c = 8 ∨ c = 0x7F then
    if 0 < x then do
      storeKey (x - 1) 0
      printKeys [8, 32, 8]
      pure (x - 1)
    else pure x
  else if 32 ≤ c ∧ x < cmdLeng - 1 then do
    storeKey x (keyChar c)
    printKeys [keyChar c]
    pure (x + 1)
  else pure x

def keyNone : Int := -1

def EndsLine (c : Int) : Prop := c = keyNone ∨ c = 10 ∨ c = 13

instance (c : Int) : Decidable (EndsLine c) := inferInstanceAs (Decidable (_ ∨ _))

/-- The loop of `cmd_edit`; `getchar` waits when there are no more keys. -/
def editLoop (tabfunc : Bool) : (keys : List Int) → (x : Nat) → EditProg Nat
  | [], _ => Prog.unfinished
  | c :: keys, x =>
      if EndsLine c then pure x
      else do
        let x ← editKey tabfunc x c
        editLoop tabfunc keys x

/-- `memset(cbuff, 0, sizeof(cbuff))`: the size is that of the pointer. -/
def clearLine : EditProg Unit := Prog.update fun editor => { editor with cbuff := editor.cbuff.store 0 [0, 0, 0, 0] }

/-- `cmd_edit` as far as the line is edited; the result is the index at the end. -/
def cmdEditBuffer (tabfunc : Bool) (c : Int) (keys : List Int) : EditProg Nat := do
  clearLine
  let x ← editLoop tabfunc (if c = keyNone then keys else c :: keys) 0
  printKeys [10]
  storeKey x 0
  pure x

/-! ## The line that is typed -/

/-- What a key makes of the line. -/
def lineKey (line : Str) (c : Int) : Str :=
  if c = 8 ∨ c = 0x7F then line.dropLast
  else if 32 ≤ c ∧ line.length < 511 then line ++ [keyChar c]
  else line

def lineOf (keys : List Int) : Str := keys.foldl lineKey []

/-- The lines that a TAB shows, up to a NUL in them. -/
def shownLines (tabfunc : Bool) : (keys : List Int) → (line : Str) → List Str
  | [], _ => []
  | c :: keys, line =>
      (if c = 9 ∧ tabfunc then [line.takeWhile (· ≠ 0)] else []) ++ shownLines tabfunc keys (lineKey line c)

/-- The editor holds `line`, and the index is its length. -/
structure Editor.Has (editor : Editor) (line : Str) (x : Nat) : Prop where
  index : x = line.length
  below : line.length < cmdLeng
  holds : editor.cbuff.Holds 0 line

section Keys

variable {editor : Editor} {line : Str} {x : Nat}

theorem storeKey_run (below : x < cmdLeng) (c : UInt8) :
    storeKey x c editor = .ok () { editor with cbuff := editor.cbuff.store x [c] } := by
  rw [storeKey, Prog.demand_pos below]
  rfl

/-- The line is ended where it goes on, and shown. -/
theorem callTab_run (has : editor.Has line x) :
    ∃ after, (storeKey x 0 >>= fun _ => callTab) editor = .ok () after ∧ after.Has line x ∧
      after.tabs = editor.tabs ++ [line.takeWhile (· ≠ 0)] := by
  obtain ⟨rfl, below, holds⟩ := has
  have kept : (editor.cbuff.store line.length [0]).Holds 0 line := holds.store_behind (by omega) _
  have ends : (editor.cbuff.store line.length [0]) (0 + line.length) = 0 := by
    rw [Nat.zero_add]
    exact Cells.store_inside (i := 0) (s := [0]) Nat.one_pos
  have shown := kept.string ends below
  rw [Prog.bind_run_ok (storeKey_run below 0), callTab, Prog.view_bind, shown]
  exact ⟨_, rfl, ⟨rfl, below, kept⟩, rfl⟩

/-- One key does to the buffer what it does to the line. -/
theorem editKey_run (tabfunc : Bool) (c : Int) (has : editor.Has line x) :
    ∃ after, editKey tabfunc x c editor = .ok (lineKey line c).length after ∧
      after.Has (lineKey line c) (lineKey line c).length ∧
      after.tabs = editor.tabs ++ (if c = 9 ∧ tabfunc then [line.takeWhile (· ≠ 0)] else []) := by
  obtain ⟨rfl, below, holds⟩ := has
  rw [editKey]
  by_cases tab : c = 9 ∧ tabfunc = true
  · have same : lineKey line c = line := by
      rw [lineKey, if_neg (by omega), if_neg (by omega)]
    obtain ⟨after, run, kept, shown⟩ := callTab_run ⟨rfl, below, holds⟩
    rw [if_pos tab, if_pos tab, same, ← Prog.bind_assoc, Prog.bind_run_ok run]
    exact ⟨after, rfl, kept, shown⟩
  · rw [if_neg tab, if_neg tab, List.append_nil]
    by_cases erase : c = 8 ∨ c = 0x7F
    · have shorter : lineKey line c = line.dropLast := if_pos erase
      rw [if_pos erase, shorter, List.length_dropLast]
      by_cases some' : 0 < line.length
      · rw [if_pos some', Prog.bind_run_ok (storeKey_run (by omega) 0)]
        have kept : (editor.cbuff.store (line.length - 1) [0]).Holds 0 line.dropLast :=
          holds.dropLast.store_behind (by rw [List.length_dropLast]; omega) _
        exact ⟨_, rfl, ⟨List.length_dropLast.symm, by rw [List.length_dropLast]; omega, kept⟩, rfl⟩
      · obtain rfl : line = [] := List.length_eq_zero_iff.mp (by omega)
        rw [if_neg some']
        exact ⟨editor, rfl, ⟨rfl, below, holds⟩, rfl⟩
    · rw [if_neg erase]
      by_cases room : 32 ≤ c ∧ line.length < cmdLeng - 1
      · have longer : lineKey line c = line ++ [keyChar c] := (if_neg erase).trans (if_pos room)
        have kept : (editor.cbuff.store line.length [keyChar c]).Holds 0 (line ++ [keyChar c]) := by
          have extended := holds.extend [keyChar c]
          rwa [Nat.zero_add] at extended
        have length : (line ++ [keyChar c]).length = line.length + 1 := List.length_append
        rw [if_pos room, longer, length, Prog.bind_run_ok (storeKey_run below _)]
        refine ⟨_, rfl, ⟨length.symm, ?_, kept⟩, rfl⟩
        have limit := room.2
        rw [length]
        omega
      · have same : lineKey line c = line := (if_neg erase).trans (if_neg room)
        rw [if_neg room, same]
        exact ⟨editor, rfl, ⟨rfl, below, holds⟩, rfl⟩

theorem editKeys_run (tabfunc : Bool) (typed : List Int) (has : editor.Has line x) :
    ∃ after, typed.foldlM (editKey tabfunc) x editor = .ok (typed.foldl lineKey line).length after ∧
      after.Has (typed.foldl lineKey line) (typed.foldl lineKey line).length ∧
      after.tabs = editor.tabs ++ shownLines tabfunc typed line := by
  induction typed generalizing editor line x with
  | nil =>
      rw [has.index]
      exact ⟨editor, rfl, ⟨rfl, has.below, has.holds⟩, (List.append_nil _).symm⟩
  | cons c typed ih =>
      obtain ⟨middle, run, goes, shown⟩ := editKey_run tabfunc c has
      obtain ⟨after, loop, final, more⟩ := ih goes
      rw [List.foldlM_cons, Prog.bind_run_ok run]
      refine ⟨after, loop, final, ?_⟩
      rw [more, shown, shownLines, List.append_assoc]

variable {typed rest : List Int} {last : Int}

theorem editLoop_eq (tabfunc : Bool) (goesOn : ∀ c ∈ typed, ¬EndsLine c) (ends : EndsLine last) (x : Nat) :
    editLoop tabfunc (typed ++ last :: rest) x = typed.foldlM (editKey tabfunc) x := by
  induction typed generalizing x with
  | nil => exact if_pos ends
  | cons c typed ih =>
      rw [List.cons_append, editLoop, if_neg (goesOn c List.mem_cons_self), List.foldlM_cons]
      exact congrArg _ (funext fun x => ih (fun d member => goesOn d (List.mem_cons_of_mem _ member)) x)

/-- The loop of the boot prompt types the same line. -/
theorem editLine_eq (goesOn : ∀ c ∈ typed, ¬EndsLine c) (ends : EndsLine last) (line : Str) :
    editLine (typed ++ last :: rest) line = typed.foldl lineKey line := by
  induction typed generalizing line with
  | nil => exact if_pos ends
  | cons c typed ih =>
      have behind (line : Str) := ih (fun d member => goesOn d (List.mem_cons_of_mem _ member)) line
      have open' : ¬(c = -1 ∨ c = 10 ∨ c = 13) := goesOn c List.mem_cons_self
      rw [List.cons_append, editLine, if_neg open', List.foldl_cons, lineKey]
      by_cases tab : c = 9
      · rw [if_pos tab, if_neg (by omega), if_neg (by omega)]
        exact behind line
      · rw [if_neg tab]
        by_cases erase : c = 8 ∨ c = 0x7F
        · rw [if_pos erase, if_pos erase]
          exact behind _
        · rw [if_neg erase, if_neg erase]
          by_cases room : 32 ≤ c ∧ line.length < cmdLeng - 1
          · rw [if_pos room, if_pos (show 32 ≤ c ∧ line.length < 511 from room)]
            exact behind _
          · rw [if_neg room, if_neg (show ¬(32 ≤ c ∧ line.length < 511) from room)]
            exact behind _

theorem keyChar_nonzero {c : Int} (low : 32 ≤ c) (high : c < 256) : keyChar c ≠ 0 := by
  intro zero
  have value : (c % 256).toNat % 256 = 0 := congrArg UInt8.toNat zero
  omega

theorem lineOf_noNul {line : Str} (bytes : ∀ c ∈ typed, c < 256) (noNul : 0 ∉ line) : 0 ∉ typed.foldl lineKey line := by
  induction typed generalizing line with
  | nil => exact noNul
  | cons c typed ih =>
      refine ih (fun d member => bytes d (List.mem_cons_of_mem _ member)) ?_
      rw [lineKey]
      split
      · exact fun nul => noNul (List.dropLast_subset _ nul)
      · split
        · next typed =>
            intro nul
            obtain old | new := List.mem_append.mp nul
            · exact noNul old
            · exact keyChar_nonzero typed.1 (bytes c List.mem_cons_self) (List.mem_singleton.mp new).symm
        · exact noNul

/-- `cmd_edit` ends with the line that the keys make, whatever the buffer held,
and on the way the index stays in the buffer. -/
theorem cmdEdit_line (tabfunc : Bool) {c : Int} {keys : List Int}
    (stream : (if c = keyNone then keys else c :: keys) = typed ++ last :: rest)
    (goesOn : ∀ c ∈ typed, ¬EndsLine c) (ends : EndsLine last) (editor : Editor) :
    (∃ after, cmdEditBuffer tabfunc c keys editor = .ok (lineOf typed).length after ∧
      after.cbuff.Holds 0 (lineOf typed) ∧ after.cbuff (lineOf typed).length = 0 ∧
      ((∀ c ∈ typed, c < 256) → after.cbuff.string cmdLeng 0 = some (lineOf typed)) ∧
      after.tabs = editor.tabs ++ shownLines tabfunc typed []) ∧
    ∀ first : List Int, ∃ middle,
      (clearLine >>= fun _ => first.foldlM (editKey tabfunc) 0) editor = .ok (lineOf first).length middle ∧
        (lineOf first).length ≤ 511 := by
  have cleared : clearLine editor = .ok () { editor with cbuff := editor.cbuff.store 0 [0, 0, 0, 0] } := rfl
  have empty : Editor.Has { editor with cbuff := editor.cbuff.store 0 [0, 0, 0, 0] } [] 0 :=
    ⟨rfl, by decide, Cells.holds_nil _ _⟩
  constructor
  · obtain ⟨middle, run, ⟨-, below, holds⟩, shown⟩ := editKeys_run tabfunc typed empty
    have stored : storeKey (lineOf typed).length 0 { middle with printed := middle.printed ++ [10] } = .ok ()
        { middle with
          cbuff := middle.cbuff.store (lineOf typed).length [0]
          printed := middle.printed ++ [10] } := storeKey_run below 0
    have printed : printKeys [10] middle = .ok () { middle with printed := middle.printed ++ [10] } := rfl
    have kept : (middle.cbuff.store (lineOf typed).length [0]).Holds 0 (lineOf typed) :=
      holds.store_behind (Nat.le_of_eq (Nat.zero_add _)) _
    have ended : (middle.cbuff.store (lineOf typed).length [0]) (lineOf typed).length = 0 :=
      Cells.store_inside (i := 0) (s := [0]) Nat.one_pos
    refine ⟨{ middle with
      cbuff := middle.cbuff.store (lineOf typed).length [0]
      printed := middle.printed ++ [10] }, ?_, kept, ended, fun bytes => ?_, shown⟩
    · rw [cmdEditBuffer, Prog.bind_run_ok cleared, stream, editLoop_eq tabfunc goesOn ends, Prog.bind_run_ok run,
        Prog.bind_run_ok printed]
      exact Prog.bind_run_ok stored
    · have whole : (lineOf typed).takeWhile (· ≠ 0) = lineOf typed := by
        refine List.takeWhile_eq_self_iff.mpr fun c member => decide_eq_true ?_
        rintro rfl
        exact lineOf_noNul bytes List.not_mem_nil member
      rw [kept.string (by rwa [Nat.zero_add]) below, whole]
  · intro first
    obtain ⟨middle, run, ⟨-, below, -⟩, -⟩ := editKeys_run tabfunc first empty
    rw [Prog.bind_run_ok cleared]
    exact ⟨middle, run, Nat.le_of_lt_succ below⟩

/-- A line behind one that was longer. -/
theorem cmdEdit_line_again : ∃ after,
    cmdEditBuffer true 108 [120, 127, 115, 13] ⟨fun _ => 65, [], []⟩ = .ok 2 after ∧
      after.cbuff.string cmdLeng 0 = some (str "ls") := by
  have stream : (if (108 : Int) = keyNone then [120, 127, 115, 13] else 108 :: [120, 127, 115, 13]) =
      [108, 120, 127, 115] ++ (13 : Int) :: [] := rfl
  have goesOn : ∀ c ∈ ([108, 120, 127, 115] : List Int), ¬EndsLine c := by decide
  obtain ⟨after, run, -, -, string, -⟩ :=
    (cmdEdit_line true stream goesOn (.inr (.inr rfl)) ⟨fun _ => 65, [], []⟩).1
  exact ⟨after, run, string (by decide)⟩

end Keys

/-- The line of the boot prompt is the one in the buffer. -/
theorem console_line {console : Console} {lastkey last : Int} {typed rest : List Int}
    (stream : (if lastkey = -1 then console.keys else lastkey :: console.keys) = typed ++ last :: rest)
    (goesOn : ∀ c ∈ typed, ¬EndsLine c) (ends : EndsLine last) : console.line lastkey = lineOf typed := by
  rw [Console.line, stream]
  exact editLine_eq goesOn ends []

end IQuik.Loader
