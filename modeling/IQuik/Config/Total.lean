import IQuik.Config.Parser

namespace IQuik.Config

open IQuik.Data IQuik.Program

/-! # The parser comes to an end -/

variable {buff : List UInt8} {parser after : Parser} {fuel : Nat}

/-- The characters that are still to come: those of the buffer, and the one
that was given back. -/
def Parser.left (parser : Parser) (buff : List UInt8) : Nat :=
  buff.length - parser.currp + if parser.back = 0 ∨ parser.back = eof then 0 else 1

/-- `currp` does not go beyond `endp`. -/
def Parser.Inside (parser : Parser) (buff : List UInt8) : Prop := parser.currp ≤ buff.length

/-- Only the position has changed, by `count` characters at least. -/
structure Moves (buff : List UInt8) (before after : Parser) (count : Nat) : Prop where
  same : after = { before with currp := after.currp, back := after.back }
  inside : after.Inside buff
  left : after.left buff + count ≤ before.left buff

theorem Moves.trans {middle : Parser} {first second : Nat} (begins : Moves buff parser middle first)
    (goes : Moves buff middle after second) : Moves buff parser after (first + second) where
  same := by rw [goes.same, begins.same]
  inside := goes.inside
  left := by
    have one := begins.left
    have two := goes.left
    omega

theorem Moves.weaken {first second : Nat} (moves : Moves buff parser after second) (less : first ≤ second) :
    Moves buff parser after first :=
  ⟨moves.same, moves.inside, Nat.le_trans (Nat.add_le_add_left less _) moves.left⟩

/-- How many characters it takes to find `ch`. -/
def cost (ch : Int) : Nat := if ch = eof then 0 else 1

theorem next_run (inside : parser.Inside buff) :
    ∃ ch after, next buff parser = .ok ch after ∧ Moves buff parser after (cost ch) := by
  unfold next
  rw [Prog.view_bind]
  by_cases nothing : parser.back = 0
  · rw [if_pos nothing]
    unfold getc
    rw [Prog.view_bind]
    by_cases ended : parser.currp = buff.length
    · rw [if_pos ended]
      exact ⟨eof, parser, rfl, rfl, inside, Nat.le_refl _⟩
    · have below : parser.currp < buff.length := Nat.lt_of_le_of_ne inside ended
      rw [if_neg ended, List.getElem?_eq_getElem below]
      refine ⟨_, _, rfl, rfl, below, ?_⟩
      have real : ((buff[parser.currp].toNat : Nat) : Int) ≠ eof := by
        unfold eof
        omega
      simp only [Parser.left, nothing, cost, if_neg real]
      simp only [true_or, if_true]
      omega
  · rw [if_neg nothing]
    refine ⟨_, _, rfl, rfl, inside, ?_⟩
    simp only [Parser.left, cost, nothing, false_or, true_or, if_true]
    split
    · omega
    · omega

theorem skipWhile_run (skipped : Int → Bool) (stops : skipped eof = false) (inside : parser.Inside buff)
    (enough : parser.left buff < fuel) :
    ∃ ch after, skipWhile buff skipped fuel parser = .ok ch after ∧ skipped ch = false ∧
      Moves buff parser after (cost ch) := by
  induction fuel generalizing parser with
  | zero => omega
  | succ fuel ih =>
      obtain ⟨ch, middle, run, moves⟩ := next_run inside
      unfold skipWhile
      rw [Prog.bind_run_ok run]
      by_cases more : skipped ch = true
      · have real : ch ≠ eof := by
          rintro rfl
          rw [stops] at more
          cases more
        have shorter := moves.left
        simp only [cost, if_neg real] at shorter
        obtain ⟨last, final, rest, found, goes⟩ := ih moves.inside (by omega)
        rw [if_pos more]
        exact ⟨last, final, rest, found, (moves.trans goes).weaken (Nat.le_add_left _ _)⟩
      · rw [if_neg more]
        exact ⟨ch, middle, rfl, Bool.eq_false_iff.mpr more, moves⟩

theorem skipComments_run {outer : Nat} (inside : parser.Inside buff) (enough : parser.left buff < fuel)
    (iterations : parser.left buff < outer) :
    ∃ ch after, skipComments buff outer fuel parser = .ok ch after ∧
      (ch = eof ∨ isSpace ch = false ∧ ch ≠ 35) ∧ Moves buff parser after (cost ch) := by
  induction outer generalizing parser with
  | zero => omega
  | succ outer ih =>
      obtain ⟨ch, middle, run, notSpace, moves⟩ := skipWhile_run isSpace (by decide) inside enough
      unfold skipComments
      rw [Prog.bind_run_ok run]
      by_cases token : ch = eof ∨ ch ≠ 35
      · rw [if_pos token]
        exact ⟨ch, middle, rfl, token.imp_right fun other => ⟨notSpace, other⟩, moves⟩
      · rw [if_neg token]
        have real : ch ≠ eof := fun same => token (.inl same)
        have shorter := moves.left
        simp only [cost, if_neg real] at shorter
        obtain ⟨last, ended, skip, -, goes⟩ := skipWhile_run (fun ch => ch ≠ 10 ∧ ch ≠ eof)
          (by decide) moves.inside (show middle.left buff < fuel by omega)
        have lessLeft := goes.left
        rw [Prog.bind_run_ok skip]
        by_cases finished : last = eof
        · rw [if_pos finished]
          exact ⟨eof, ended, rfl, .inl rfl, (moves.trans goes).weaken (Nat.zero_le _)⟩
        · rw [if_neg finished]
          have below : ended.left buff < parser.left buff := by omega
          obtain ⟨found, final, rest, token, ends⟩ := ih goes.inside (Nat.lt_trans below enough)
            (Nat.lt_of_lt_of_le below (Nat.le_of_lt_succ iterations))
          exact ⟨found, final, rest, token, ((moves.trans goes).trans ends).weaken (Nat.le_add_left _ _)⟩

/-! # Tokens -/

/-- The tokens handed out are short. -/
def Parser.Short (parser : Parser) : Prop :=
  ∀ request ∈ parser.requests, ∀ text, request = .token text → text.length < maxToken

/-- A state the parser can be in between two characters. -/
structure Parser.Good (parser : Parser) (buff : List UInt8) : Prop where
  inside : parser.Inside buff
  short : parser.Short

theorem Moves.good {count : Nat} (moves : Moves buff parser after count) (short : parser.Short) :
    after.Good buff :=
  ⟨moves.inside, by rw [moves.same]; exact short⟩

/-- A token has been handed out: `count` characters at least are gone, and there
is one more request. -/
structure Reads (buff : List UInt8) (before after : Parser) (count : Nat) (text : Str) : Prop where
  same : after = { before with
    currp := after.currp
    back := after.back
    requests := before.requests ++ [.token text] }
  inside : after.Inside buff
  left : after.left buff + count ≤ before.left buff
  short : text.length < maxToken

theorem Reads.good {count : Nat} {text : Str} (reads : Reads buff parser after count text)
    (short : parser.Short) : after.Good buff := by
  refine ⟨reads.inside, fun request member other same => ?_⟩
  rw [reads.same] at member
  rcases List.mem_append.mp member with old | new
  · exact short request old other same
  · cases List.mem_singleton.mp new
    cases same
    exact reads.short

/-- From here on `program` hands out a token, or gives up in an error; counted
from `start`. -/
def Hands (buff : List UInt8) (start : Parser) (program : ParseProg Str) (parser : Parser) (count : Nat) : Prop :=
  (∃ text after, program parser = .ok text after ∧ Reads buff start after count text) ∨
  ∃ code after, program parser = .error code after ∧ Moves buff start after 0

variable {start middle : Parser} {count : Nat} {program whole : ParseProg Str} {stored : Str} {ch : Int}

theorem Hands.step (run : whole parser = program middle) (hands : Hands buff start program middle count) :
    Hands buff start whole parser count := by
  unfold Hands
  rw [run]
  exact hands

theorem Hands.weaken {more : Nat} (hands : Hands buff start program parser more) (less : count ≤ more) :
    Hands buff start program parser count := by
  rcases hands with ⟨text, after, run, reads⟩ | failed
  · exact .inl ⟨text, after, run, reads.same, reads.inside,
      Nat.le_trans (Nat.add_le_add_left less _) reads.left, reads.short⟩
  · exact .inr failed

theorem Hands.fail {some : Nat} (moves : Moves buff start parser some) (code : ConfigError) :
    Hands buff start (Prog.fail code) parser count :=
  .inr ⟨code, parser, rfl, moves.weaken (Nat.zero_le _)⟩

theorem finish_run (room : stored.length < maxToken) (moves : Moves buff start parser count) :
    Hands buff start (finish stored) parser count := by
  left
  unfold finish
  rw [Prog.demand_pos (Nat.le_of_lt room), Prog.pure_bind]
  refine ⟨_, _, rfl, ?_, moves.inside, moves.left,
    Nat.lt_of_le_of_lt (List.takeWhile_prefix _).length_le room⟩
  rw [moves.same]

theorem store_run (room : stored.length < maxToken) (ch : Int) :
    store stored ch parser = .ok (stored ++ [(ch % 256).toNat.toUInt8]) parser := by
  unfold store
  rw [Prog.demand_pos (Nat.le_of_lt room)]
  rfl

/-- A character that is given back counts again. -/
theorem Moves.again (moves : Moves buff start parser (count + cost ch)) :
    Moves buff start { parser with back := ch } count where
  same := by rw [moves.same]
  inside := moves.inside
  left := by
    have before := moves.left
    simp only [Parser.left, cost] at before ⊢
    split at before <;> split at before <;> split <;> simp_all <;> omega

theorem quoted_run {inner : Nat} (moves : Moves buff start parser count) (enough : parser.left buff < fuel)
    (enoughInner : parser.left buff < inner) : Hands buff start (quoted buff inner fuel stored) parser count := by
  induction fuel generalizing parser stored with
  | zero => omega
  | succ fuel ih =>
      -- the loop goes on after at least one character
      have goOn {later : Parser} {more : Nat} {stored : Str} (further : Moves buff parser later (more + 1)) :
          Hands buff start (quoted buff inner fuel stored) later count := by
        have shorter := further.left
        exact (ih ((moves.trans further).weaken (Nat.le_add_right _ _)) (by omega) (by omega))
      unfold quoted
      by_cases room : stored.length < maxToken
      · rw [if_pos room]
        obtain ⟨ch, middle, run, first⟩ := next_run moves.inside
        apply Hands.step (Prog.bind_run_ok run)
        by_cases ended : ch = eof
        · rw [if_pos ended]
          exact .fail (moves.trans first) _
        rw [if_neg ended]
        have one : cost ch = 1 := if_neg ended
        rw [one] at first
        by_cases quote : ch = 34
        · rw [if_pos quote]
          exact finish_run room ((moves.trans first).weaken (Nat.le_add_right _ _))
        rw [if_neg quote]
        by_cases backslash : ch = 92
        · rw [if_pos backslash]
          obtain ⟨second, later, run, goes⟩ := next_run first.inside
          apply Hands.step (Prog.bind_run_ok run)
          have further : Moves buff parser later (cost second + 1) :=
            (first.trans goes).weaken (by omega)
          by_cases same : second = 34 ∨ second = 92
          · rw [if_pos same]
            exact .step (Prog.bind_run_ok (store_run room _)) (goOn further)
          rw [if_neg same]
          by_cases line : second = 10
          · rw [if_pos line]
            have shorter := further.left
            obtain ⟨third, final, skip, -, ends⟩ := skipWhile_run isIndent (by decide)
              further.inside (show later.left buff < inner by omega)
            apply Hands.step (Prog.bind_run_ok skip)
            have whole := further.trans ends
            by_cases nul : third = 0
            · rw [if_pos nul]
              exact goOn (whole.weaken (Nat.le_add_right _ _))
            · rw [if_neg nul]
              have back : Moves buff parser { final with back := third } (cost second + 1) := whole.again
              have given : Config.again third final = .ok () { final with back := third } := rfl
              exact .step (Prog.bind_run_ok given) (.step (Prog.bind_run_ok (store_run room _)) (goOn back))
          rw [if_neg line]
          by_cases letter : second = 110
          · rw [if_pos letter]
            exact .step (Prog.bind_run_ok (store_run room _)) (goOn further)
          · rw [if_neg letter]
            exact .fail (moves.trans further) _
        rw [if_neg backslash]
        by_cases line : ch = 10
        · rw [if_pos line]
          exact .fail (moves.trans first) _
        · rw [if_neg line]
          exact .step (Prog.bind_run_ok (store_run room _)) (goOn (show Moves buff parser middle (0 + 1) from first))
      · rw [if_neg room]
        exact .fail moves _

/-- What a token without quotes takes from the character `ch` on: nothing of it
when it ends the token and is given back. -/
def gain (escaped : Bool) (ch : Int) : Nat := if escaped = false ∧ endsToken ch = true then 0 else cost ch

theorem bare_run {escaped : Bool} (moves : Moves buff start parser (count + cost ch))
    (enough : parser.left buff + cost ch < fuel) :
    Hands buff start (bare buff fuel stored escaped ch) parser (count + gain escaped ch) := by
  induction fuel generalizing parser stored escaped ch count with
  | zero => omega
  | succ fuel ih =>
      have goOn (real : ch ≠ eof) (stored : Str) (escaped' : Bool) :
          Hands buff start (next buff >>= fun ch => bare buff fuel stored escaped' ch) parser
            (count + gain escaped ch) := by
        obtain ⟨second, later, run, goes⟩ := next_run moves.inside
        have one : cost ch = 1 := if_neg real
        have shorter := goes.left
        apply Hands.step (Prog.bind_run_ok run)
        have rest : Hands buff start (bare buff fuel stored escaped' second) later
            (count + cost ch + gain escaped' second) := ih (moves.trans goes) (by omega)
        apply rest.weaken
        have less : gain escaped ch ≤ cost ch := by
          unfold gain
          split
          · exact Nat.zero_le _
          · exact Nat.le_refl _
        omega
      unfold bare
      by_cases room : stored.length < maxToken
      · rw [if_pos room]
        by_cases after : escaped = true
        · rw [if_pos after]
          by_cases ended : ch = eof
          · rw [if_pos ended]
            exact .fail moves _
          rw [if_neg ended]
          by_cases line : ch = 10
          · rw [if_pos line]
            exact goOn ended _ _
          · rw [if_neg line]
            exact .step (Prog.bind_run_ok (store_run room _)) (goOn ended _ _)
        rw [if_neg after]
        by_cases ends : endsToken ch = true
        · rw [if_pos ends]
          have nothing : gain escaped ch = 0 := if_pos ⟨Bool.eq_false_iff.mpr after, ends⟩
          have given : Config.again ch parser = .ok () { parser with back := ch } := rfl
          rw [nothing]
          exact .step (Prog.bind_run_ok given) (finish_run room moves.again)
        rw [if_neg ends]
        have real : ch ≠ eof := by
          rintro rfl
          exact ends (by decide)
        by_cases backslash : ch = 92
        · rw [if_pos backslash]
          exact goOn real _ _
        · rw [if_neg backslash]
          exact .step (Prog.bind_run_ok (store_run room _)) (goOn real _ _)
      · rw [if_neg room]
        exact .fail moves _

theorem tokenAt_run (token : isSpace ch = false ∧ ch ≠ 35) (real : ch ≠ eof)
    (moves : Moves buff start parser 1) (enough : parser.left buff + 1 < fuel) :
    Hands buff start (tokenAt buff fuel ch) parser 1 := by
  have one : cost ch = 1 := if_neg real
  unfold tokenAt
  by_cases equals : ch = 61
  · rw [if_pos equals]
    exact finish_run (by decide) moves
  rw [if_neg equals]
  by_cases quote : ch = 34
  · rw [if_pos quote]
    exact quoted_run moves (by omega) (by omega)
  rw [if_neg quote]
  have inner : endsToken ch = false := by
    have space := token.1
    simp only [isSpace, decide_eq_false_iff_not, not_or] at space
    simp [endsToken, space, token.2, equals, real]
  have all : gain false ch = 1 := by simp [gain, inner, one]
  have taken : Moves buff start parser (0 + cost ch) := by rwa [one]
  have hands : Hands buff start (bare buff fuel [] false ch) parser (0 + gain false ch) :=
    bare_run taken (by rwa [one])
  rwa [all] at hands

/-- A token from the buffer takes a character at least. -/
theorem readToken_run (inside : parser.Inside buff) (enough : parser.left buff + 1 < fuel) :
    (∃ after, readToken buff fuel parser = .ok none after ∧ Moves buff parser after 0) ∨
    (∃ text after, readToken buff fuel parser = .ok (some text) after ∧ Reads buff parser after 1 text) ∨
    ∃ code after, readToken buff fuel parser = .error code after ∧ Moves buff parser after 0 := by
  obtain ⟨ch, middle, run, token, moves⟩ := skipComments_run inside
    (show parser.left buff < fuel by omega) (show parser.left buff < fuel by omega)
  unfold readToken
  rw [Prog.bind_run_ok run]
  by_cases ended : ch = eof
  · rw [if_pos ended]
    exact .inl ⟨middle, rfl, moves.weaken (Nat.zero_le _)⟩
  rw [if_neg ended]
  right
  have one : cost ch = 1 := if_neg ended
  have shorter := moves.left
  rcases tokenAt_run (token.resolve_left ended) ended (one ▸ moves) (show middle.left buff + 1 < fuel by omega) with
    ⟨text, after, goes, reads⟩ | ⟨code, after, goes, failed⟩
  · exact .inl ⟨text, after, by rw [Prog.bind_run_ok goes]; rfl, reads⟩
  · exact .inr ⟨code, after, Prog.bind_run_error goes, failed⟩

/-! # Items -/

/-- The characters to come, and the token that was given back. -/
def Parser.weight (parser : Parser) (buff : List UInt8) : Nat :=
  2 * parser.left buff + if parser.lastToken.isSome then 1 else 0

/-- The parser is in a good state again, with less before it. -/
structure Step (buff : List UInt8) (before after : Parser) (count : Nat) : Prop where
  good : after.Good buff
  weight : after.weight buff + count ≤ before.weight buff
  item : after.lastItem = before.lastItem

theorem Step.trans {first second : Nat} (begins : Step buff parser middle first)
    (goes : Step buff middle after second) : Step buff parser after (first + second) where
  good := goes.good
  weight := by
    have one := begins.weight
    have two := goes.weight
    omega
  item := goes.item.trans begins.item

theorem Step.weaken {first second : Nat} (step : Step buff parser after second) (less : first ≤ second) :
    Step buff parser after first :=
  ⟨step.good, Nat.le_trans (Nat.add_le_add_left less _) step.weight, step.item⟩

theorem Moves.step (moves : Moves buff parser after count) (short : parser.Short) :
    Step buff parser after 0 := by
  have left := moves.left
  refine ⟨moves.good short, ?_, by rw [moves.same]⟩
  have token : after.lastToken = parser.lastToken := by rw [moves.same]
  simp only [Parser.weight, token]
  omega

theorem Reads.step {text : Str} (reads : Reads buff parser after 1 text) (short : parser.Short) :
    Step buff parser after 1 := by
  have left := reads.left
  refine ⟨reads.good short, ?_, by rw [reads.same]⟩
  have token : after.lastToken = parser.lastToken := by rw [reads.same]
  simp only [Parser.weight, token]
  omega

theorem left_le_weight (parser : Parser) (buff : List UInt8) : parser.left buff ≤ parser.weight buff := by
  unfold Parser.weight
  omega

theorem cfgGetToken_run (good : parser.Good buff) (enough : parser.weight buff + 1 < fuel) :
    (∃ after, cfgGetToken buff fuel parser = .ok none after ∧ Step buff parser after 0) ∨
    (∃ text after, cfgGetToken buff fuel parser = .ok (some text) after ∧ Step buff parser after 1 ∧
      after.lastToken = none) ∨
    ∃ code after, cfgGetToken buff fuel parser = .error code after ∧ Step buff parser after 0 := by
  have less := left_le_weight parser buff
  unfold cfgGetToken
  rw [Prog.view_bind]
  by_cases given : parser.lastToken.isSome = true
  · obtain ⟨text, token⟩ := Option.isSome_iff_exists.mp given
    rw [if_pos given, token]
    refine .inr (.inl ⟨text, _, rfl, ⟨⟨good.inside, good.short⟩, ?_, rfl⟩, rfl⟩)
    simp [Parser.weight, Parser.left, token]
  · rw [if_neg given]
    have none : parser.lastToken = none := by simpa using given
    rcases readToken_run good.inside (show parser.left buff + 1 < fuel by omega) with
      ⟨after, run, moves⟩ | ⟨text, after, run, reads⟩ | ⟨code, after, run, moves⟩
    · exact .inl ⟨after, run, moves.step good.short⟩
    · exact .inr (.inl ⟨text, after, run, reads.step good.short, by rw [reads.same]; exact none⟩)
    · exact .inr (.inr ⟨code, after, run, moves.step good.short⟩)

theorem nextValue_run (good : parser.Good buff) (enough : parser.weight buff + 1 < fuel) (item : Str) :
    (∃ value after, nextValue buff fuel item parser = .ok value after ∧ Step buff parser after 0) ∨
    ∃ code after, nextValue buff fuel item parser = .error code after ∧ Step buff parser after 0 := by
  unfold nextValue
  rcases cfgGetToken_run good enough with
    ⟨after, run, step⟩ | ⟨this, middle, run, step, cleared⟩ | ⟨code, after, run, step⟩
  · rw [Prog.bind_run_ok run]
    exact .inl ⟨none, after, rfl, step⟩
  · rw [Prog.bind_run_ok run]
    by_cases other : this ≠ str "="
    · left
      refine ⟨none, { middle with lastToken := some this }, ?_, ⟨step.good.inside, step.good.short⟩, ?_, step.item⟩
      · simp only [if_pos other]
        rfl
      · have less := step.weight
        simp only [Parser.weight, cleared] at less
        simp only [Parser.weight, Parser.left] at less ⊢
        simpa using less
    · simp only [if_neg other]
      have lighter := step.weight
      rcases cfgGetToken_run step.good (show middle.weight buff + 1 < fuel by omega) with
        ⟨after, run, goes⟩ | ⟨value, after, run, goes, -⟩ | ⟨code, after, run, goes⟩
      · rw [Prog.bind_run_ok run]
        exact .inr ⟨_, after, rfl, (step.trans goes).weaken (Nat.zero_le _)⟩
      · rw [Prog.bind_run_ok run]
        by_cases equals : value = str "="
        · simp only [if_pos equals]
          exact .inr ⟨_, after, rfl, (step.trans goes).weaken (Nat.zero_le _)⟩
        · simp only [if_neg equals]
          exact .inl ⟨_, after, rfl, (step.trans goes).weaken (Nat.zero_le _)⟩
      · exact .inr ⟨code, after, Prog.bind_run_error run, (step.trans goes).weaken (Nat.zero_le _)⟩
  · exact .inr ⟨code, after, Prog.bind_run_error run, step⟩

theorem cfgNext_run (good : parser.Good buff) (fresh : parser.lastItem = none)
    (enough : parser.weight buff + 1 < fuel) :
    (∃ after, cfgNext buff fuel parser = .ok none after ∧ Step buff parser after 0) ∨
    (∃ item after, cfgNext buff fuel parser = .ok (some item) after ∧ Step buff parser after 1) ∨
    ∃ code after, cfgNext buff fuel parser = .error code after ∧ Step buff parser after 0 := by
  unfold cfgNext
  rw [Prog.view_bind, fresh]
  simp only [Option.isSome_none, Bool.false_eq_true, if_false]
  rcases cfgGetToken_run good enough with
    ⟨after, run, step⟩ | ⟨item, middle, run, step, -⟩ | ⟨code, after, run, step⟩
  · rw [Prog.bind_run_ok run]
    exact .inl ⟨after, rfl, step⟩
  · rw [Prog.bind_run_ok run]
    by_cases equals : item = str "="
    · simp only [if_pos equals]
      exact .inr (.inr ⟨_, middle, rfl, step.weaken (Nat.zero_le _)⟩)
    · simp only [if_neg equals]
      have lighter := step.weight
      rcases nextValue_run step.good (show middle.weight buff + 1 < fuel by omega) item with
        ⟨value, after, run, goes⟩ | ⟨code, after, run, goes⟩
      · rw [Prog.bind_run_ok run]
        exact .inr (.inl ⟨_, after, rfl, step.trans goes⟩)
      · exact .inr (.inr ⟨code, after, Prog.bind_run_error run, (step.trans goes).weaken (Nat.zero_le _)⟩)
  · exact .inr (.inr ⟨code, after, Prog.bind_run_error run, step⟩)

theorem setItem_run (good : parser.Good buff) (item : Str) (value : Option Str) :
    (∃ after, setItem item value parser = .ok true after ∧ Step buff parser after 0) ∨
    ∃ after, setItem item value parser = .ok false after ∧ after.Good buff := by
  unfold setItem
  cases Table.set item value parser.currTable with
  | none => exact .inr ⟨_, rfl, good.inside, good.short⟩
  | some table =>
      left
      refine ⟨_, rfl, ?_⟩
      unfold Parser.setTable
      split
      · exact ⟨⟨good.inside, good.short⟩, Nat.le_refl _, rfl⟩
      · exact ⟨⟨good.inside, good.short⟩, Nat.le_refl _, rfl⟩

theorem cfgSet_run (good : parser.Good buff) (item : Str) (value : Option Str) :
    (∃ after, cfgSet item value parser = .ok true after ∧ Step buff parser after 0) ∨
    ∃ after, cfgSet item value parser = .ok false after ∧ after.Good buff := by
  unfold cfgSet
  split
  · have grown : Step buff parser
        { parser with requests := parser.requests ++ [.image], images := parser.images ++ [cfImage] } 0 := by
      refine ⟨⟨good.inside, fun request member text same => ?_⟩, Nat.le_refl _, rfl⟩
      rcases List.mem_append.mp member with old | new
      · exact good.short request old text same
      · cases List.mem_singleton.mp new
        cases same
    have made : newImage parser = .ok ()
        { parser with requests := parser.requests ++ [.image], images := parser.images ++ [cfImage] } := rfl
    rw [Prog.bind_run_ok made]
    rcases setItem_run grown.good item value with ⟨after, run, step⟩ | ended
    · exact .inl ⟨after, run, grown.trans step⟩
    · exact .inr ended
  · exact setItem_run good item value

theorem parseItems_run {inner : Nat} (good : parser.Good buff) (fresh : parser.lastItem = none)
    (enough : parser.weight buff < fuel) (enoughInner : parser.weight buff + 1 < inner) :
    (∃ code after, parseItems buff inner fuel parser = .ok code after ∧ (code = 0 ∨ code = -1) ∧
      after.Good buff) ∨
    ∃ code after, parseItems buff inner fuel parser = .error code after ∧ after.Good buff := by
  induction fuel generalizing parser with
  | zero => omega
  | succ fuel ih =>
      unfold parseItems
      rcases cfgNext_run good fresh enoughInner with
        ⟨after, run, step⟩ | ⟨item, middle, run, step⟩ | ⟨code, after, run, step⟩
      · rw [Prog.bind_run_ok run]
        exact .inl ⟨0, after, rfl, .inl rfl, step.good⟩
      · rw [Prog.bind_run_ok run]
        rcases cfgSet_run step.good item.1 item.2 with ⟨after, run, goes⟩ | ⟨after, run, ended⟩
        · have whole := step.trans goes
          have lighter := whole.weight
          simp only [Prog.bind_run_ok run, if_true]
          exact ih whole.good (whole.item.trans fresh) (by omega) (by omega)
        · simp only [Prog.bind_run_ok run, Bool.false_eq_true, if_false]
          exact .inl ⟨-1, after, rfl, .inr rfl, ended⟩
      · exact .inr ⟨code, after, Prog.bind_run_error run, step.good⟩

theorem fresh_good : Parser.fresh.Good buff := ⟨Nat.zero_le _, fun _ member => nomatch member⟩

/-- While `malloc` refuses nothing, every buffer is parsed to an end. -/
theorem parseRoomy_run (enough : 2 * buff.length + 1 < fuel) :
    ∃ code after, parseRoomy buff fuel .fresh = .ok code after ∧ (code = 0 ∨ code = -1) ∧ after.Good buff := by
  have weight : Parser.fresh.weight buff = 2 * buff.length := by
    simp [Parser.weight, Parser.left, Parser.fresh]
  unfold parseRoomy
  rw [Prog.update_bind]
  have start : { Parser.fresh with currp := 0 } = Parser.fresh := rfl
  rw [start]
  rcases parseItems_run fresh_good rfl (show Parser.fresh.weight buff < fuel by omega)
      (show Parser.fresh.weight buff + 1 < fuel by omega) with
    ⟨code, after, run, result, good⟩ | ⟨code, after, run, good⟩
  · refine ⟨code, after, ?_, result, good⟩
    rw [Prog.bind_run_ok (show Prog.attempt (parseItems buff fuel fuel) .fresh = .ok (.ok code) after by
      rw [Prog.attempt, run])]
    rfl
  · refine ⟨-1, after, ?_, .inr rfl, good⟩
    rw [Prog.bind_run_ok (show Prog.attempt (parseItems buff fuel fuel) .fresh = .ok (.error code) after by
      rw [Prog.attempt, run])]
    rfl

/-- The requests that a parse of the buffer makes of `malloc`. -/
def requestsOf (buff : List UInt8) (fuel : Nat) : List Request :=
  ((parseRoomy buff fuel .fresh).state?.map Parser.requests).getD []

/-- What is promised of a parse: it comes back with 0 or -1, has read no byte
behind the buffer, and has handed out short tokens only. -/
def Parses (grants : Nat → Nat → Bool) (buff : List UInt8) (fuel : Nat) : Prop :=
  ∃ code after, cfgParse grants buff fuel .fresh = .ok code after ∧
    (code = 0 ∨ code = -1) ∧ after.currp ≤ buff.length ∧
    ∀ text, Request.token text ∈ after.requests → text.length < maxToken

variable {grants : Nat → Nat → Bool}

theorem granted_iff {code : Int} (run : parseRoomy buff fuel .fresh = .ok code after) :
    (∀ final ∈ (parseRoomy buff fuel .fresh).state?, Granted grants final.requests) ↔
      Granted grants (requestsOf buff fuel) := by
  simp [requestsOf, run]

theorem cfgParse_granted (enough : 2 * buff.length + 1 < fuel) (granted : Granted grants (requestsOf buff fuel)) :
    Parses grants buff fuel := by
  obtain ⟨code, after, run, result, good⟩ := parseRoomy_run enough
  refine ⟨code, after, ?_, result, good.inside, fun text member => good.short _ member text rfl⟩
  rw [cfgParse, if_pos ((granted_iff run).mpr granted), run]

theorem cfgParse_refused (enough : 2 * buff.length + 1 < fuel) (refused : ¬Granted grants (requestsOf buff fuel)) :
    cfgParse grants buff fuel .fresh = .undefined := by
  obtain ⟨code, after, run, -⟩ := parseRoomy_run enough
  rw [cfgParse, if_neg fun all => refused ((granted_iff run).mp all)]

/-- Every buffer is parsed as promised, unless a string or a table gets no
memory. -/
theorem parses_iff (grants : Nat → Nat → Bool) (buff : List UInt8) (fuel : Nat)
    (enough : 2 * buff.length + 1 < fuel) :
    Parses grants buff fuel ↔ Granted grants (requestsOf buff fuel) := by
  constructor
  · rintro ⟨code, after, returned, -⟩
    by_contra refused
    rw [cfgParse_refused enough refused] at returned
    cases returned
  · exact cfgParse_granted enough

theorem parses_sample : Parses (fun _ _ => true) (str "image=\"a\\") 100 :=
  (parses_iff _ _ _ (by decide)).mpr fun _ _ => rfl

/-- The line `image`, and a heap that has no room left for a table. -/
theorem not_parses : ¬Parses (fun _ size => size < 100) (str "image") 100 := by
  rintro ⟨code, after, returned, -⟩
  have refused : ¬Granted (fun _ size => size < 100) (requestsOf (str "image") 100) := by decide +kernel
  rw [cfgParse_refused (by decide) refused] at returned
  cases returned

end IQuik.Config
