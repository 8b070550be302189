import IQuik.Data.Errors
import IQuik.Data.Strings
import IQuik.PowerPC.StringCopies
import IQuik.Program.Outcome
import Mathlib.Data.List.TakeWhile

namespace IQuik.Loader

open IQuik.Data IQuik.Program IQuik.PowerPC

/-! # Lines that are split where they stand

`word_split` writes NULs into its line, and `env_init` and `get_params` split what it leaves of the
same buffer again. `wordSplit` takes a string and returns strings; here the two are compared.
-/

abbrev MemProg := Prog QuikErr Memory

def load (p : Word) : MemProg UInt8 := Prog.view fun mem => mem p

/-- `while (wanted (*p)) p++`. -/
def moveWhile (wanted : UInt8 → Bool) : (fuel : Nat) → Word → MemProg Word
  | 0, _ => Prog.unfinished
  | fuel + 1, p => do
      let c ← load p
      if wanted c then moveWhile wanted fuel (p + 1) else pure p

/-- `while (*p == ' ') *p++ = 0`. -/
def clearSpaces : (fuel : Nat) → Word → MemProg Word
  | 0, _ => Prog.unfinished
  | fuel + 1, p => do
      let c ← load p
      if c = 32 then do
        Prog.update fun mem => mem.storeByte p 0
        clearSpaces fuel (p + 1)
      else pure p

/-- `chomp`. -/
def chompPlace (fuel : Nat) (s : Word) : MemProg Word := moveWhile (· = 32) fuel s

/-- `word_split`, which returns what it stores in `*linep` and `*paramsp`; `empty` is its literal. -/
def wordSplitPlace (empty : Word) (fuel : Nat) : Option Word → MemProg (Option Word × Word)
  | none => pure (none, empty)
  | some p => do
      let line ← chompPlace fuel p
      let c ← load line
      if c = 0 then pure (none, empty)
      else do
        let behind ← moveWhile (fun c => c ≠ 0 ∧ c ≠ 32) fuel line
        let params ← clearSpaces fuel behind
        let next ← load params
        pure (some line, if next ≠ 0 then params else empty)

/-- `count` words are split off, each from what the one before has left. -/
def splitWords (empty : Word) (fuel : Nat) : (count : Nat) → Word → MemProg (List (Option Word) × Word)
  | 0, p => pure ([], p)
  | count + 1, p => do
      let (word, params) ← wordSplitPlace empty fuel (some p)
      let (words, rest) ← splitWords empty fuel count params
      pure (word :: words, rest)

/-- The same words as strings. -/
def wordsOf : (count : Nat) → Str → List (Option Str) × Str
  | 0, line => ([], line)
  | count + 1, line =>
      let words := wordSplit (some line)
      (words.1 :: (wordsOf count words.2).1, (wordsOf count words.2).2)

/-- A pointer that may be NULL, and the string that it leads to. -/
inductive Leads (mem : Memory) : Option Word → Option Str → Prop
  | null : Leads mem none none
  | string {p : Word} {s : Str} (spells : mem.Spells p s) : Leads mem (some p) (some s)

/-! ## The loops -/

section Loops

variable {mem : Memory} {p : Word} {s t : Str} {fuel : Nat}

/-- What stands behind the first bytes of a string. -/
theorem spells_behind (spells : mem.Spells p (s ++ t)) : mem.Spells (place p s.length) t := by
  induction s generalizing p with
  | nil => rwa [List.nil_append, ← place_zero p] at spells
  | cons c s ih =>
      rw [List.length_cons, ← place_succ]
      exact ih spells.2.2

theorem spells_kept {after : Memory} (spells : mem.Spells p s)
    (same : ∀ i ≤ s.length, after (place p i) = mem (place p i)) : after.Spells p s :=
  spells_of_get (fun i inside => (same i (Nat.le_of_lt inside)).trans (spells.get inside)) spells.zero_notMem
    ((same _ (Nat.le_refl _)).trans spells.end)

/-- A loop that does not want the NUL ends within the string. -/
theorem moveWhile_run {wanted : UInt8 → Bool} (spells : mem.Spells p s) (stops : wanted 0 = false)
    (enough : s.length < fuel) :
    moveWhile wanted fuel p mem = .ok (place p (s.takeWhile wanted).length) mem := by
  induction s generalizing p fuel with
  | nil =>
      obtain ⟨fuel, rfl⟩ := Nat.exists_eq_add_one_of_ne_zero (Nat.ne_of_gt enough)
      rw [moveWhile, load, Prog.view_bind, show mem p = 0 from spells, stops, List.takeWhile_nil, List.length_nil,
        place_zero]
      rfl
  | cons c s ih =>
      obtain ⟨fuel, rfl⟩ := Nat.exists_eq_add_one_of_ne_zero (Nat.ne_of_gt (Nat.zero_lt_of_lt enough))
      obtain ⟨here, -, rest⟩ := spells
      rw [moveWhile, load, Prog.view_bind, here]
      by_cases wants : wanted c = true
      · rw [if_pos wants, List.takeWhile_cons_of_pos wants, List.length_cons, ← place_succ]
        exact ih rest (Nat.lt_of_succ_lt_succ enough)
      · rw [if_neg wants, List.takeWhile_cons_of_neg wants, List.length_nil, place_zero]
        rfl

/-- The spaces that a string starts with. -/
def spaces (s : Str) : Nat := (s.takeWhile (· = 32)).length

theorem spaces_chomp (s : Str) : spaces s + (chomp s).length = s.length := by
  rw [spaces, chomp, ← List.length_append, List.takeWhile_append_dropWhile]

theorem spells_chomp (spells : mem.Spells p s) : mem.Spells (place p (spaces s)) (chomp s) := by
  refine spells_behind ?_
  rwa [chomp, List.takeWhile_append_dropWhile]

theorem chomp_head (s : Str) : (chomp s).headD 0 ≠ 32 := by
  cases rest : chomp s with
  | nil => decide
  | cons c more =>
      have head := List.head?_dropWhile_not (fun c : UInt8 => decide (c = 32)) s
      rw [show s.dropWhile (fun c : UInt8 => decide (c = 32)) = c :: more from rest] at head
      simpa using head

/-- The spaces end where a byte is no space. -/
theorem space_iff (spells : mem.Spells p s) {i : Nat} (reached : i ≤ spaces s) :
    mem (place p i) = 32 ↔ i < spaces s := by
  rcases Nat.lt_or_eq_of_le reached with early | rfl
  · have inside : i < s.length := Nat.lt_of_lt_of_le early ((List.takeWhile_prefix _).length_le)
    have space := List.mem_takeWhile_imp (List.getElem_mem early)
    rw [spells.get inside, ← (List.takeWhile_prefix fun c : UInt8 => decide (c = 32)).getElem early]
    exact iff_of_true (of_decide_eq_true space) early
  · rw [(spells_chomp spells).head]
    exact iff_of_false (chomp_head s) (Nat.lt_irrefl _)

/-- By induction on the fuel: what has been cleared is filled with NULs. -/
theorem clear_loop (spells : mem.Spells p s) {done : Nat} (reached : done ≤ spaces s)
    (enough : spaces s - done < fuel) :
    clearSpaces fuel (place p done) (mem.filled p 0 done) = .ok (place p (spaces s)) (mem.filled p 0 (spaces s)) := by
  have bound : spaces s < 2 ^ 32 := Nat.lt_of_le_of_lt ((List.takeWhile_prefix _).length_le) spells.small
  induction fuel generalizing done with
  | zero => cases enough
  | succ fuel ih =>
      have reads : mem.filled p 0 done (place p done) = mem (place p done) :=
        filled_outside fun j inside same => by
          have := (place_inj (by omega) (by omega)).mp same
          omega
      rw [clearSpaces, load, Prog.view_bind, reads]
      by_cases early : done < spaces s
      · rw [if_pos ((space_iff spells reached).mpr early), Prog.update_bind, filled_byte (Nat.le_refl _) (by omega),
          Nat.max_eq_right (Nat.le_succ _), show place p done + 1 = place p (done + 1) from place_step rfl 1]
        exact ih early (by omega)
      · rw [if_neg (mt (space_iff spells reached).mp early), Nat.le_antisymm reached (Nat.le_of_not_lt early)]
        rfl

theorem filled_nothing (mem : Memory) (p : Word) (byte : UInt8) : mem.filled p byte 0 = mem :=
  funext fun _ => filled_outside fun _ inside => absurd inside (Nat.not_lt_zero _)

theorem clearSpaces_run (spells : mem.Spells p s) (enough : s.length < fuel) :
    clearSpaces fuel p mem = .ok (place p (spaces s)) (mem.filled p 0 (spaces s)) := by
  have run := clear_loop spells (Nat.zero_le _) (Nat.lt_of_le_of_lt (Nat.sub_le _ _)
    (Nat.lt_of_le_of_lt ((List.takeWhile_prefix _).length_le) enough))
  rwa [place_zero, filled_nothing] at run

end Loops

/-! ## One word -/

/-- A word is split off for good: it stands, whatever becomes of the bytes of the rest. -/
structure SplitOff (empty p : Word) (s : Str) (mem : Memory) (word : Option Word) (q : Word) (after : Memory) : Prop where
  word : ∀ later, SameOutside q (wordSplit (some s)).2.length after later → Leads later word (wordSplit (some s)).1
  rest : after.Spells q (wordSplit (some s)).2
  ends : after empty = 0
  others : ∀ later, SameOutside q (wordSplit (some s)).2.length after later → SameOutside p s.length mem later

section Words

variable {mem after later : Memory} {p q empty : Word} {s line : Str} {fuel : Nat}

/-- A string has no NUL that could end a word. -/
theorem takeWhile_word (noNul : 0 ∉ line) :
    (line.takeWhile fun c => c ≠ 0 ∧ c ≠ 32) = line.takeWhile (· ≠ 32) := by
  induction line with
  | nil => rfl
  | cons c line ih =>
      obtain ⟨some', rest⟩ := not_or.mp (mt List.mem_cons.mpr noNul)
      rw [List.takeWhile_cons, List.takeWhile_cons, ih rest]
      exact if_congr (by simp [Ne.symm some']) rfl rfl

/-- Behind a word there is a space or nothing. -/
theorem spaces_behind (line : Str) : 0 < spaces (line.dropWhile (· ≠ 32)) ∨ line.dropWhile (· ≠ 32) = [] := by
  cases tail : line.dropWhile (· ≠ 32) with
  | nil => exact .inr rfl
  | cons c more =>
      have head := List.head?_dropWhile_not (fun c : UInt8 => decide (c ≠ 32)) line
      rw [show line.dropWhile (fun c : UInt8 => decide (c ≠ 32)) = c :: more from tail] at head
      have space : c = 32 := by simpa using head
      refine .inl ?_
      rw [spaces, space, List.takeWhile_cons_of_pos (by decide)]
      exact Nat.succ_pos _

/-- The word of a line stands once the spaces behind it are cleared, whatever becomes of the rest. -/
theorem word_stands {word tail : Str} (spells : mem.Spells p (word ++ tail)) (behind : 0 < spaces tail ∨ tail = [])
    (same : SameOutside q (chomp tail).length (mem.filled (place p word.length) 0 (spaces tail)) later)
    (next : chomp tail ≠ [] → q = place p (word.length + spaces tail)) : later.Spells p word := by
  have parts := spaces_chomp tail
  have small := spells.small
  rw [List.length_append] at small
  -- the bytes before the rest are those that have been left
  have before (i : Nat) (inside : i ≤ word.length) :
      later (place p i) = mem.filled (place p word.length) 0 (spaces tail) (place p i) := by
    by_cases none : chomp tail = []
    · rw [none] at same
      exact congrFun same.nothing _
    · rw [next none] at same
      have some' := List.length_pos_of_ne_nil none
      have blank : 0 < spaces tail := behind.resolve_right fun nil => none (by rw [nil]; rfl)
      exact same.at_place (by omega) (.inl (by omega))
  refine spells_of_get (fun i inside => ?_) (fun member => spells.zero_notMem (List.mem_append_left _ member)) ?_
  · rw [before i (Nat.le_of_lt inside), filled_sameOutside.at_place (by omega) (.inl inside),
      spells.get (by rw [List.length_append]; omega), List.getElem_append_left inside]
  · rw [before _ (Nat.le_refl _)]
    rcases behind with blank | rfl
    · have cleared : mem.filled (place p word.length) 0 (spaces tail) (place (place p word.length) 0) = 0 :=
        filled_inside (by omega) blank
      rwa [place_zero] at cleared
    · rw [show spaces [] = 0 from rfl, filled_nothing]
      rw [List.append_nil] at spells
      exact spells.end

/-- Once its spaces are cleared, the rest of a line stands behind them. -/
theorem rest_stands {tail : Str} (spells : mem.Spells p tail) :
    (mem.filled p 0 (spaces tail)).Spells (place p (spaces tail)) (chomp tail) := by
  have parts := spaces_chomp tail
  have small := spells.small
  refine spells_kept (spells_chomp spells) fun i inside => filled_outside fun j below same => ?_
  rw [place_place] at same
  have := (place_inj (by omega) (by omega)).mp same
  omega

/-- A NUL that is filled with NULs, or not, is one. -/
theorem filled_nul {address : Word} (nul : mem address = 0) (count : Nat) : mem.filled p 0 count address = 0 := by
  rw [Memory.filled]
  split
  · rfl
  · exact nul

/-- The pointer that is stored for the rest of a line leads to it; it is the empty string's for nothing. -/
theorem stored_spells {rest : Str} {n : Word} (spells : mem.Spells n rest) (ends : mem empty = 0) :
    ∃ q, (if mem n ≠ 0 then n else empty) = q ∧ mem.Spells q rest ∧ (rest ≠ [] → q = n) := by
  cases rest with
  | nil =>
      have nul : mem n = 0 := spells
      exact ⟨empty, if_neg (not_not.mpr nul), ends, fun some' => absurd rfl some'⟩
  | cons c rest => exact ⟨n, if_pos (spells.1.trans_ne spells.2.1), spells, fun _ => rfl⟩

/-- What is cleared, and what becomes of the rest, is within the line. -/
theorem others_stand {tail : Str} {low n : Nat} (inside : low + tail.length ≤ n)
    (same : SameOutside q (chomp tail).length (mem.filled (place p low) 0 (spaces tail)) later)
    (next : chomp tail ≠ [] → q = place p (low + spaces tail)) : SameOutside p n mem later := by
  have parts := spaces_chomp tail
  have cleared : SameOutside p n mem (mem.filled (place p low) 0 (spaces tail)) :=
    filled_sameOutside.widen (by omega)
  by_cases none : chomp tail = []
  · rw [none] at same
    rwa [same.nothing]
  · rw [next none] at same
    exact cleared.trans (same.widen (by omega))

/-- The three loops of a line that has a word. -/
theorem wordSplitPlace_some {first behind params : Word} (start : chompPlace fuel p mem = .ok first mem)
    (some' : mem first ≠ 0) (move : moveWhile (fun c => c ≠ 0 ∧ c ≠ 32) fuel first mem = .ok behind mem)
    (clear : clearSpaces fuel behind mem = .ok params after) :
    wordSplitPlace empty fuel (some p) mem =
      .ok (some first, if after params ≠ 0 then params else empty) after := by
  rw [wordSplitPlace, Prog.bind_run_ok start, load, Prog.view_bind, if_neg some', Prog.bind_run_ok move,
    Prog.bind_run_ok clear, load, Prog.view_bind]
  rfl

/-- A line without words. -/
theorem wordSplitPlace_none (spells : mem.Spells p s) (ends : mem empty = 0) (enough : s.length < fuel)
    (text : chomp s = []) :
    wordSplitPlace empty fuel (some p) mem = .ok (none, empty) mem ∧ SplitOff empty p s mem none empty mem := by
  have chomped := spells_chomp spells
  rw [text] at chomped
  have start : chompPlace fuel p mem = .ok (place p (spaces s)) mem := moveWhile_run spells rfl enough
  have words : wordSplit (some s) = (none, []) := by simp only [wordSplit, text]
  constructor
  · rw [wordSplitPlace, Prog.bind_run_ok start, load, Prog.view_bind, if_pos (show mem (place p (spaces s)) = 0 from chomped)]
    rfl
  · refine ⟨fun later _ => ?_, ?_, ends, fun later same => ?_⟩
    · rw [words]
      exact .null
    · rw [words]
      exact ends
    · rw [words] at same
      exact fun _ _ => congrFun same.nothing _

/-- A line of a word and what is behind it. -/
theorem wordSplitPlace_word {word tail : Str} (spells : mem.Spells p s) (ends : mem empty = 0)
    (enough : s.length < fuel) (text : chomp s = word ++ tail) (some' : word ≠ [])
    (words : wordSplit (some s) = (some word, chomp tail)) (wanted : (word ++ tail).takeWhile (· ≠ 32) = word)
    (behind : 0 < spaces tail ∨ tail = []) :
    ∃ q after, wordSplitPlace empty fuel (some p) mem = .ok (some (place p (spaces s)), q) after ∧
      SplitOff empty p s mem (some (place p (spaces s))) q after := by
  have total := spaces_chomp s
  have chomped := spells_chomp spells
  rw [text] at total chomped
  have room : (word ++ tail).length < fuel := by omega
  rw [List.length_append] at total
  -- what the loops leave
  have start : chompPlace fuel p mem = .ok (place p (spaces s)) mem := moveWhile_run spells rfl enough
  have head : mem (place p (spaces s)) ≠ 0 := by
    obtain ⟨c, more, rfl⟩ := List.exists_cons_of_ne_nil some'
    exact chomped.1.trans_ne chomped.2.1
  have move : moveWhile (fun c => c ≠ 0 ∧ c ≠ 32) fuel (place p (spaces s)) mem =
      .ok (place (place p (spaces s)) word.length) mem := by
    have run : moveWhile (fun c => c ≠ 0 ∧ c ≠ 32) fuel (place p (spaces s)) mem = _ :=
      moveWhile_run chomped rfl room
    rwa [takeWhile_word chomped.zero_notMem, wanted] at run
  have clear := clearSpaces_run (spells_behind chomped) (show tail.length < fuel by omega)
  have run : wordSplitPlace empty fuel (some p) mem = _ := wordSplitPlace_some start head move clear
  obtain ⟨q, stored, rest, next⟩ := stored_spells (rest_stands (spells_behind chomped)) (filled_nul ends _)
  rw [stored] at run
  refine ⟨q, _, run, fun later same => ?_, ?_, filled_nul ends _, fun later same => ?_⟩
  · rw [words] at same ⊢
    exact .string (word_stands chomped behind same fun more => (next more).trans (place_place ..))
  · rw [words]
    exact rest
  · rw [words, place_place] at same
    refine others_stand (by omega) same fun more => ?_
    rw [next more, place_place, place_place, Nat.add_assoc]

/-- What is left of a line without the spaces in front starts with a word. -/
theorem word_some (some' : chomp s ≠ []) : (chomp s).takeWhile (· ≠ 32) ≠ [] := by
  cases text : chomp s with
  | nil => exact absurd text some'
  | cons c more =>
      have head := chomp_head s
      rw [text] at head
      have wants : decide (c ≠ 32) = true := decide_eq_true head
      rw [List.takeWhile_cons, if_pos wants]
      exact List.cons_ne_nil _ _

/-- Without the spaces in front. -/
theorem wordSplit_line (text : chomp s = line) (some' : line ≠ []) :
    wordSplit (some s) = (some (line.takeWhile (· ≠ 32)), chomp (line.dropWhile (· ≠ 32))) := by
  cases line with
  | nil => exact absurd rfl some'
  | cons c more => simp only [wordSplit, text]

theorem wordSplitPlace_run (spells : mem.Spells p s) (ends : mem empty = 0) (enough : s.length < fuel) :
    ∃ word q after, wordSplitPlace empty fuel (some p) mem = .ok (word, q) after ∧
      SplitOff empty p s mem word q after := by
  by_cases none' : chomp s = []
  · exact ⟨none, empty, mem, wordSplitPlace_none spells ends enough none'⟩
  have parts := List.takeWhile_append_dropWhile (p := fun c : UInt8 => decide (c ≠ 32)) (l := chomp s)
  obtain ⟨q, after, run, split⟩ := wordSplitPlace_word spells ends enough parts.symm (word_some none')
    (wordSplit_line rfl none') (congrArg _ parts) (spaces_behind _)
  exact ⟨_, q, after, run, split⟩

end Words

/-! ## Word after word -/

section Lines

variable {mem : Memory} {p empty : Word} {s : Str} {fuel count : Nat}

theorem wordSplit_length (s : Str) : (wordSplit (some s)).2.length ≤ s.length := by
  by_cases none' : chomp s = []
  · simp only [wordSplit, none', List.length_nil, Nat.zero_le]
  · rw [wordSplit_line rfl none']
    exact (List.dropWhile_suffix _).length_le.trans
      ((List.dropWhile_suffix _).length_le.trans (List.dropWhile_suffix _).length_le)

/-- By induction on the words: each is split off from the rest that the one before has left, and stands
whatever the later ones clear in it. In the end all words are those of `wordSplit`, and no byte outside
of the line has changed. -/
theorem splitWords_run (spells : mem.Spells p s) (ends : mem empty = 0) (enough : s.length < fuel) :
    ∃ words q after, splitWords empty fuel count p mem = .ok (words, q) after ∧
      List.Forall₂ (Leads after) words (wordsOf count s).1 ∧ after.Spells q (wordsOf count s).2 ∧
      SameOutside p s.length mem after := by
  induction count generalizing p s mem with
  | zero => exact ⟨[], p, mem, rfl, .nil, spells, fun _ _ => rfl⟩
  | succ count ih =>
      obtain ⟨word, q, middle, first, split⟩ := wordSplitPlace_run spells ends enough
      obtain ⟨words, next, after, runs, stand, rest, same⟩ :=
        ih split.rest split.ends (Nat.lt_of_le_of_lt (wordSplit_length s) enough)
      refine ⟨word :: words, next, after, ?_, .cons (split.word after same) stand, rest, split.others after same⟩
      rw [splitWords, Prog.bind_run_ok first]
      exact Prog.bind_run_ok runs

end Lines

end IQuik.Loader
