import IQuik.Config.Parser
import Mathlib.Data.List.TakeWhile

namespace IQuik.Config

open IQuik.Data IQuik.Program

/-! # Settings as text -/

/-- A setting, without a value for a flag. -/
structure Setting where
  name : Str
  value : Option Str

def escapeByte (c : UInt8) : Str :=
  if c = 34 then [92, 34] else if c = 92 then [92, 92] else if c = 10 then [92, 110] else [c]

/-- A value in quotes, up to the second of them. -/
def quote (value : Str) : Str := value.flatMap escapeByte ++ [34]

/-- What follows the name on its line. -/
def Setting.behind (setting : Setting) : Str :=
  match setting.value with
  | some value => 61 :: 34 :: (quote value ++ [10])
  | none => [10]

def Setting.print (setting : Setting) : Str := setting.name ++ setting.behind

def printAll (settings : List Setting) : Str := settings.flatMap Setting.print

theorem quote_length (value : Str) : value.length ≤ (quote value).length := by
  rw [quote, List.length_append, List.length_singleton]
  induction value with
  | nil => exact Nat.zero_le _
  | cons c value ih =>
      have byte : 1 ≤ (escapeByte c).length := by
        unfold escapeByte
        split_ifs <;> simp
      rw [List.flatMap_cons, List.length_append, List.length_cons]
      omega

/-- A character of a name, which neither ends a token nor is changed in one. -/
def PlainByte (c : UInt8) : Prop := c ≠ 0 ∧ endsToken c.toNat = false ∧ c ≠ 92 ∧ c ≠ 34

instance (c : UInt8) : Decidable (PlainByte c) := inferInstanceAs (Decidable (_ ∧ _))

/-- A value that a string can have. -/
structure Valued (value : Str) : Prop where
  noNul : ∀ c ∈ value, c ≠ 0
  short : value.length < maxToken

instance (value : Str) : Decidable (Valued value) :=
  decidable_of_iff (value.all (· ≠ 0) = true ∧ value.length < maxToken)
    ⟨fun both => ⟨by simpa using both.1, both.2⟩, fun valued => ⟨by simpa using valued.noNul, valued.short⟩⟩

/-- A setting that can be written as text. -/
structure Setting.Writable (setting : Setting) : Prop where
  some' : setting.name ≠ []
  plain : ∀ c ∈ setting.name, PlainByte c
  short : setting.name.length < maxToken
  valued : ∀ value ∈ setting.value, Valued value
  opens : equalNoCase setting.name (str "image") = true → setting.value ≠ none

/-- The strings that are copied for a setting. -/
def Setting.tokens (setting : Setting) : List Request :=
  match setting.value with
  | some value => [.token setting.name, .token (str "="), .token value]
  | none => [.token setting.name]

/-! ## Characters -/

/-- What is still to be read: the character that was given back, and the buffer from
`currp` on. -/
def Parser.Ahead (parser : Parser) (buff rest : List UInt8) : Prop :=
  (parser.back = 0 ∧ buff.drop parser.currp = rest) ∨
    ∃ c : UInt8, c ≠ 0 ∧ parser.back = c.toNat ∧ rest = c :: buff.drop parser.currp

/-- More was asked of `malloc`. -/
def Parser.ask (parser : Parser) (asked : List Request) : Parser :=
  { parser with requests := parser.requests ++ asked }

/-- The parser is as `start` but for its place, and `rest` is ahead. -/
structure Comes (buff : List UInt8) (start parser : Parser) (rest : List UInt8) : Prop where
  same : parser = { start with currp := parser.currp, back := parser.back }
  inside : parser.currp ≤ buff.length
  ahead : parser.Ahead buff rest

variable {buff : List UInt8} {start parser : Parser} {rest word : List UInt8} {c : UInt8} {fuel : Nat}

theorem Comes.length (comes : Comes buff start parser rest) : rest.length ≤ buff.length + 1 := by
  obtain ⟨-, rfl⟩ | ⟨c, -, -, rfl⟩ := comes.ahead
  · rw [List.length_drop]
    omega
  · rw [List.length_cons, List.length_drop]
    omega

theorem next_comes (comes : Comes buff start parser (c :: rest)) :
    ∃ after, next buff parser = .ok (c.toNat : Int) after ∧ Comes buff start after rest ∧ after.back = 0 := by
  rw [next, Prog.view_bind]
  obtain ⟨back, ahead⟩ | ⟨other, some', back, ahead⟩ := comes.ahead
  · rw [if_pos back, getc, Prog.view_bind]
    have below : parser.currp < buff.length := by
      have length := congrArg List.length ahead
      rw [List.length_drop, List.length_cons] at length
      omega
    rw [List.drop_eq_getElem_cons below] at ahead
    obtain ⟨rfl, behind⟩ := List.cons.inj ahead
    rw [if_neg (Nat.ne_of_lt below), List.getElem?_eq_getElem below]
    exact ⟨_, rfl, ⟨by rw [comes.same], below, .inl ⟨back, behind⟩⟩, back⟩
  · obtain ⟨rfl, rfl⟩ := List.cons.inj ahead
    have given : parser.back ≠ 0 := by
      rw [back]
      intro zero
      exact some' (UInt8.toNat_inj.mp (Int.ofNat.inj zero))
    rw [if_neg given, back]
    exact ⟨_, rfl, ⟨by rw [comes.same], comes.inside, .inl ⟨rfl, rfl⟩⟩, rfl⟩

theorem next_end (comes : Comes buff start parser []) : next buff parser = .ok eof parser := by
  rw [next, Prog.view_bind]
  obtain ⟨back, ahead⟩ | ⟨other, -, -, ahead⟩ := comes.ahead
  · have ended : parser.currp = buff.length := Nat.le_antisymm comes.inside (List.drop_eq_nil_iff.mp ahead)
    rw [if_pos back, getc, Prog.view_bind, if_pos ended]
    rfl
  · cases ahead

theorem again_comes (comes : Comes buff start parser rest) (back : parser.back = 0) (some' : c ≠ 0) :
    ∃ after, again (c.toNat : Int) parser = .ok () after ∧ Comes buff start after (c :: rest) := by
  refine ⟨_, rfl, ⟨by rw [comes.same], comes.inside, .inr ⟨c, some', rfl, ?_⟩⟩⟩
  obtain ⟨-, ahead⟩ | ⟨other, some', given, -⟩ := comes.ahead
  · rw [← ahead]
  · rw [back] at given
    exact absurd (UInt8.toNat_inj.mp (Int.ofNat.inj given.symm)) some'

theorem skipWhile_comes {skipped : Int → Bool} {blanks : List UInt8} (blank : ∀ b ∈ blanks, skipped b.toNat = true)
    (stops : skipped c.toNat = false) (enough : blanks.length < fuel)
    (comes : Comes buff start parser (blanks ++ c :: rest)) :
    ∃ after, skipWhile buff skipped fuel parser = .ok (c.toNat : Int) after ∧ Comes buff start after rest := by
  induction blanks generalizing parser fuel with
  | nil =>
      obtain ⟨fuel, rfl⟩ : ∃ less, fuel = less + 1 := ⟨fuel - 1, by simp at enough; omega⟩
      obtain ⟨after, run, goes, -⟩ := next_comes comes
      rw [skipWhile, Prog.bind_run_ok run, if_neg (by simp [stops])]
      exact ⟨after, rfl, goes⟩
  | cons b blanks ih =>
      rw [List.length_cons] at enough
      obtain ⟨fuel, rfl⟩ : ∃ less, fuel = less + 1 := ⟨fuel - 1, by omega⟩
      obtain ⟨middle, run, goes, -⟩ := next_comes comes
      rw [skipWhile, Prog.bind_run_ok run, if_pos (blank b List.mem_cons_self)]
      exact ih (fun other mem => blank other (List.mem_cons_of_mem _ mem)) (by omega) goes

theorem skipWhile_end {skipped : Int → Bool} {blanks : List UInt8} (blank : ∀ b ∈ blanks, skipped b.toNat = true)
    (stops : skipped eof = false) (enough : blanks.length < fuel) (comes : Comes buff start parser blanks) :
    ∃ after, skipWhile buff skipped fuel parser = .ok eof after ∧ Comes buff start after [] := by
  induction blanks generalizing parser fuel with
  | nil =>
      obtain ⟨fuel, rfl⟩ : ∃ less, fuel = less + 1 := ⟨fuel - 1, by simp at enough; omega⟩
      rw [skipWhile, Prog.bind_run_ok (next_end comes), if_neg (by simp [stops])]
      exact ⟨parser, rfl, comes⟩
  | cons b blanks ih =>
      rw [List.length_cons] at enough
      obtain ⟨fuel, rfl⟩ : ∃ less, fuel = less + 1 := ⟨fuel - 1, by omega⟩
      obtain ⟨middle, run, goes, -⟩ := next_comes comes
      rw [skipWhile, Prog.bind_run_ok run, if_pos (blank b List.mem_cons_self)]
      exact ih (fun other mem => blank other (List.mem_cons_of_mem _ mem)) (by omega) goes

/-! ## Tokens -/

theorem store_byte {stored : Str} (room : stored.length < maxToken) (c : UInt8) :
    store stored (c.toNat : Int) parser = .ok (stored ++ [c]) parser := by
  have byte : ((c.toNat : Int) % 256).toNat.toUInt8 = c := by
    have small := c.toNat_lt
    rw [Int.emod_eq_of_lt (by omega) (by omega)]
    exact UInt8.ofNat_toNat
  rw [store, Prog.demand_pos (Nat.le_of_lt room)]
  exact congrArg (fun last => Outcome.ok (stored ++ [last]) parser) byte

theorem finish_comes {stored : Str} (noNul : ∀ c ∈ stored, c ≠ 0) (room : stored.length < maxToken)
    (comes : Comes buff start parser rest) :
    ∃ after, finish stored parser = .ok stored after ∧ Comes buff (start.ask [.token stored]) after rest := by
  have whole : stored.takeWhile (· ≠ 0) = stored :=
    List.takeWhile_eq_self_iff.mpr fun c mem => decide_eq_true (noNul c mem)
  rw [finish, Prog.demand_pos (Nat.le_of_lt room), whole]
  exact ⟨_, rfl, ⟨by rw [comes.same]; rfl, comes.inside, comes.ahead⟩⟩

theorem noNul_snoc {stored : Str} (noNul : ∀ b ∈ stored, b ≠ 0) (nul : c ≠ 0) : ∀ b ∈ stored ++ [c], b ≠ 0 := by
  intro b mem
  obtain old | new := List.mem_append.mp mem
  · exact noNul b old
  · rw [List.mem_singleton.mp new]
    exact nul

theorem byte_ne {d : UInt8} (differ : c ≠ d) : ¬(c.toNat : Int) = d.toNat :=
  fun same => differ (UInt8.toNat_inj.mp (Int.ofNat.inj same))

theorem bare_byte {stored : Str} (plain : PlainByte c) (room : stored.length < maxToken) :
    bare buff (fuel + 1) stored false (c.toNat : Int) parser =
      (next buff >>= fun ch => bare buff fuel (stored ++ [c]) false ch) parser := by
  obtain ⟨-, inner, backslash, -⟩ := plain
  have other : ¬(c.toNat : Int) = 92 := byte_ne backslash
  rw [bare, if_pos room, if_neg Bool.false_ne_true, if_neg (by simp [inner]), if_neg other,
    Prog.bind_run_ok (store_byte room c)]

/-- A word up to a character that ends it, which is given back. -/
theorem bare_comes {stored : Str} {stop : UInt8} (plain : ∀ b ∈ c :: word, PlainByte b)
    (noNul : ∀ b ∈ stored, b ≠ 0) (room : stored.length + (c :: word).length < maxToken)
    (ends : endsToken stop.toNat = true) (some' : stop ≠ 0) (enough : word.length + 1 < fuel)
    (comes : Comes buff start parser (word ++ stop :: rest)) :
    ∃ after, bare buff fuel stored false (c.toNat : Int) parser = .ok (stored ++ c :: word) after ∧
      Comes buff (start.ask [.token (stored ++ c :: word)]) after (stop :: rest) := by
  induction word generalizing c stored parser fuel with
  | nil =>
      obtain ⟨fuel, rfl⟩ : ∃ less, fuel = less + 2 := ⟨fuel - 2, by simp at enough; omega⟩
      rw [List.length_singleton] at room
      have first : PlainByte c := plain c List.mem_cons_self
      obtain ⟨middle, run, goes, back⟩ := next_comes comes
      obtain ⟨given, gives, behind⟩ := again_comes goes back some'
      have long : (stored ++ [c]).length < maxToken := by rwa [List.length_append, List.length_singleton]
      obtain ⟨after, finishes, final⟩ := finish_comes (noNul_snoc noNul first.1) long behind
      refine ⟨after, ?_, final⟩
      rw [bare_byte first (by omega), Prog.bind_run_ok run, bare, if_pos long, if_neg Bool.false_ne_true,
        if_pos ends, Prog.bind_run_ok gives, finishes]
  | cons d word ih =>
      obtain ⟨fuel, rfl⟩ : ∃ less, fuel = less + 1 := ⟨fuel - 1, by omega⟩
      rw [List.length_cons] at room enough
      have first : PlainByte c := plain c List.mem_cons_self
      obtain ⟨middle, run, goes, back⟩ := next_comes comes
      have long : (stored ++ [c]).length + (d :: word).length < maxToken := by
        rw [List.length_append, List.length_singleton]
        omega
      obtain ⟨after, reads, final⟩ := ih (fun b mem => plain b (List.mem_cons_of_mem _ mem))
        (noNul_snoc noNul first.1) long (show word.length + 1 < fuel by omega) goes
      rw [List.append_assoc, List.singleton_append] at reads final
      refine ⟨after, ?_, final⟩
      rw [bare_byte first (by omega), Prog.bind_run_ok run, reads]

/-- One byte of a value, as it was written, is stored. -/
theorem quoted_byte {stored : Str} (inner fuel : Nat) (room : stored.length < maxToken)
    (comes : Comes buff start parser (escapeByte c ++ rest)) :
    ∃ middle, quoted buff inner (fuel + 1) stored parser = quoted buff inner fuel (stored ++ [c]) middle ∧
      Comes buff start middle rest := by
  rw [escapeByte] at comes
  rw [quoted, if_pos room]
  by_cases special : c = 34 ∨ c = 92
  · have escaped : Comes buff start parser (92 :: c :: rest) := by
      obtain rfl | rfl := special
      · exact comes
      · exact comes
    have same : (c.toNat : Int) = 34 ∨ (c.toNat : Int) = 92 := by
      obtain rfl | rfl := special
      · exact .inl rfl
      · exact .inr rfl
    obtain ⟨middle, run, goes, -⟩ := next_comes escaped
    obtain ⟨after, follows, final, -⟩ := next_comes goes
    refine ⟨after, ?_, final⟩
    rw [Prog.bind_run_ok run, if_neg (by decide), if_neg (by decide), if_pos (by decide),
      Prog.bind_run_ok follows, if_pos same, Prog.bind_run_ok (store_byte room c)]
  · obtain ⟨quote', backslash⟩ := not_or.mp special
    rw [if_neg quote', if_neg backslash] at comes
    by_cases line : c = 10
    · subst line
      obtain ⟨middle, run, goes, -⟩ := next_comes comes
      obtain ⟨after, follows, final, -⟩ := next_comes goes
      have stores : store stored 10 after = .ok (stored ++ [10]) after := store_byte room 10
      refine ⟨after, ?_, final⟩
      rw [Prog.bind_run_ok run, if_neg (by decide), if_neg (by decide), if_pos (by decide),
        Prog.bind_run_ok follows, if_neg (by decide), if_neg (by decide), if_pos (by decide),
        Prog.bind_run_ok stores]
    · rw [if_neg line] at comes
      obtain ⟨after, run, final, -⟩ := next_comes comes
      have real : ¬(c.toNat : Int) = eof := by
        rw [eof]
        omega
      have notQuote : ¬(c.toNat : Int) = 34 := byte_ne quote'
      have notBackslash : ¬(c.toNat : Int) = 92 := byte_ne backslash
      have notLine : ¬(c.toNat : Int) = 10 := byte_ne line
      refine ⟨after, ?_, final⟩
      rw [Prog.bind_run_ok run, if_neg real, if_neg notQuote, if_neg notBackslash, if_neg notLine,
        Prog.bind_run_ok (store_byte room c)]

/-- What was written in quotes is read back. -/
theorem quoted_comes {stored value : Str} (inner : Nat) (nul : ∀ b ∈ stored ++ value, b ≠ 0)
    (room : (stored ++ value).length < maxToken) (enough : value.length < fuel)
    (comes : Comes buff start parser (quote value ++ rest)) :
    ∃ after, quoted buff inner fuel stored parser = .ok (stored ++ value) after ∧
      Comes buff (start.ask [.token (stored ++ value)]) after rest := by
  induction value generalizing stored parser fuel with
  | nil =>
      obtain ⟨fuel, rfl⟩ : ∃ less, fuel = less + 1 := ⟨fuel - 1, by simp at enough; omega⟩
      rw [List.append_nil] at nul room ⊢
      obtain ⟨middle, run, goes, -⟩ := next_comes comes
      obtain ⟨after, finishes, final⟩ := finish_comes nul room goes
      refine ⟨after, ?_, final⟩
      rw [quoted, if_pos room, Prog.bind_run_ok run, if_neg (by decide), if_pos (by decide), finishes]
  | cons c value ih =>
      obtain ⟨fuel, rfl⟩ : ∃ less, fuel = less + 1 := ⟨fuel - 1, by omega⟩
      rw [List.append_cons] at nul room ⊢
      rw [List.length_cons] at enough
      have here : stored.length < maxToken := by
        rw [List.length_append, List.length_append, List.length_singleton] at room
        omega
      have written : quote (c :: value) ++ rest = escapeByte c ++ (quote value ++ rest) := by
        simp [quote]
      rw [written] at comes
      obtain ⟨middle, step, goes⟩ := quoted_byte inner fuel here comes
      obtain ⟨after, reads, final⟩ := ih nul room (show value.length < fuel by omega) goes
      exact ⟨after, by rw [step, reads], final⟩

theorem noNul_nil : ∀ b ∈ ([] : Str), b ≠ 0 := fun _ mem => absurd mem List.not_mem_nil

theorem noBlank : ∀ b ∈ ([] : List UInt8), isSpace b.toNat = true := fun _ mem => absurd mem List.not_mem_nil

/-- The end of a line. -/
theorem isBlank : ∀ b ∈ [(10 : UInt8)], isSpace b.toNat = true := List.forall_mem_singleton.mpr rfl

/-- Blanks are skipped, up to the first character of a token. -/
theorem readToken_comes {blanks : List UInt8} (blank : ∀ b ∈ blanks, isSpace b.toNat = true)
    (token : isSpace c.toNat = false) (word : c ≠ 35) (enough : blanks.length < fuel)
    (comes : Comes buff start parser (blanks ++ c :: rest)) :
    ∃ middle, readToken buff fuel parser =
        (tokenAt buff fuel c.toNat >>= fun text => pure (some text)) middle ∧
      Comes buff start middle rest := by
  obtain ⟨less, rfl⟩ : ∃ less, fuel = less + 1 := ⟨fuel - 1, by omega⟩
  obtain ⟨middle, run, goes⟩ := skipWhile_comes blank token enough comes
  have other : ¬(c.toNat : Int) = 35 := byte_ne word
  have real : ¬(c.toNat : Int) = eof := by
    rw [eof]
    omega
  have skips : skipComments buff (less + 1) (less + 1) parser = .ok (c.toNat : Int) middle := by
    rw [skipComments, Prog.bind_run_ok run, if_pos (.inr other)]
    rfl
  exact ⟨middle, by rw [readToken, Prog.bind_run_ok skips, if_neg real], goes⟩

theorem readToken_end {blanks : List UInt8} (blank : ∀ b ∈ blanks, isSpace b.toNat = true)
    (enough : blanks.length < fuel) (comes : Comes buff start parser blanks) :
    ∃ after, readToken buff fuel parser = .ok none after ∧ Comes buff start after [] := by
  obtain ⟨less, rfl⟩ : ∃ less, fuel = less + 1 := ⟨fuel - 1, by omega⟩
  obtain ⟨after, run, goes⟩ := skipWhile_end blank (by decide) enough comes
  have skips : skipComments buff (less + 1) (less + 1) parser = .ok eof after := by
    rw [skipComments, Prog.bind_run_ok run, if_pos (.inl rfl)]
    rfl
  exact ⟨after, by rw [readToken, Prog.bind_run_ok skips, if_pos rfl]; rfl, goes⟩

theorem PlainByte.token (plain : PlainByte c) :
    isSpace c.toNat = false ∧ c ≠ 35 ∧ ¬(c.toNat : Int) = 61 ∧ ¬(c.toNat : Int) = 34 := by
  obtain ⟨-, inner, -, quote'⟩ := plain
  simp only [endsToken, decide_eq_false_iff_not, not_or] at inner
  refine ⟨by simp [isSpace, inner], ?_, inner.2.2.2.2.1, byte_ne quote'⟩
  rintro rfl
  exact inner.2.2.2.1 rfl

theorem readToken_word {blanks : List UInt8} {stop : UInt8} (blank : ∀ b ∈ blanks, isSpace b.toNat = true)
    (some' : word ≠ []) (plain : ∀ b ∈ word, PlainByte b) (short : word.length < maxToken)
    (ends : endsToken stop.toNat = true) (nul : stop ≠ 0) (enough : buff.length + 1 < fuel)
    (comes : Comes buff start parser (blanks ++ (word ++ stop :: rest))) :
    ∃ after, readToken buff fuel parser = .ok (some word) after ∧
      Comes buff (start.ask [.token word]) after (stop :: rest) := by
  have length := comes.length
  rw [List.length_append, List.length_append, List.length_cons] at length
  cases word with
  | nil => exact absurd rfl some'
  | cons c word =>
      rw [List.length_cons] at length
      obtain ⟨space, comment, equals, quote'⟩ := (plain c List.mem_cons_self).token
      obtain ⟨middle, run, goes⟩ := readToken_comes blank space comment
        (show blanks.length < fuel by omega) comes
      obtain ⟨after, reads, final⟩ := bare_comes plain noNul_nil
        (by rwa [List.length_nil, Nat.zero_add]) ends nul (show word.length + 1 < fuel by omega) goes
      refine ⟨after, ?_, final⟩
      rw [run, tokenAt, if_neg equals, if_neg quote', Prog.bind_run_ok reads]
      rfl

theorem noNul_equals : ∀ b ∈ str "=", b ≠ 0 := List.forall_mem_singleton.mpr (by decide)

theorem readToken_equals (enough : 0 < fuel) (comes : Comes buff start parser (61 :: rest)) :
    ∃ after, readToken buff fuel parser = .ok (some (str "=")) after ∧
      Comes buff (start.ask [.token (str "=")]) after rest := by
  obtain ⟨middle, run, goes⟩ := readToken_comes noBlank (by decide) (by decide) enough comes
  obtain ⟨after, finishes, final⟩ := finish_comes noNul_equals (by decide) goes
  refine ⟨after, ?_, final⟩
  rw [run, tokenAt, if_pos (by decide), Prog.bind_run_ok finishes]
  rfl

theorem readToken_quote {value : Str} (valued : Valued value) (enough : buff.length + 1 < fuel)
    (comes : Comes buff start parser (34 :: (quote value ++ rest))) :
    ∃ after, readToken buff fuel parser = .ok (some value) after ∧
      Comes buff (start.ask [.token value]) after rest := by
  obtain ⟨middle, run, goes⟩ := readToken_comes noBlank (by decide) (by decide) (show 0 < fuel by omega) comes
  have written : value.length ≤ (quote value).length := quote_length value
  have length := comes.length
  rw [List.length_cons, List.length_append] at length
  obtain ⟨after, reads, final⟩ := quoted_comes fuel (show ∀ b ∈ [] ++ value, b ≠ 0 from valued.noNul)
    valued.short     (show value.length < fuel by omega) goes
  refine ⟨after, ?_, final⟩
  rw [run, tokenAt, if_neg (by decide), if_pos (by decide), Prog.bind_run_ok reads]
  rfl

end IQuik.Config
