import IQuik.Config.Text

namespace IQuik.Config

open IQuik.Data IQuik.Program

/-! # Settings read back -/

variable {buff : List UInt8} {start parser : Parser} {rest : List UInt8} {fuel : Nat}

@[simp] theorem ask_ask (parser : Parser) (first second : List Request) :
    (parser.ask first).ask second = parser.ask (first ++ second) := by
  simp [Parser.ask, List.append_assoc]

theorem cfgGetToken_none (nothing : parser.lastToken = none) :
    cfgGetToken buff fuel parser = readToken buff fuel parser := by
  rw [cfgGetToken, Prog.view_bind, nothing]
  rfl

theorem Comes.lastToken (comes : Comes buff start parser rest) : parser.lastToken = start.lastToken := by
  rw [comes.same]

theorem Comes.lastItem (comes : Comes buff start parser rest) : parser.lastItem = start.lastItem := by
  rw [comes.same]

/-- The settings are ahead, on lines of their own; behind a flag, the name of the next of
them has been read and was given back. -/
inductive Upcoming (buff : List UInt8) (start parser : Parser) : List Setting → Prop
  | apart {blanks : List UInt8} {settings : List Setting} (blank : ∀ b ∈ blanks, isSpace b.toNat = true)
      (comes : Comes buff start parser (blanks ++ printAll settings)) : Upcoming buff start parser settings
  | named {setting : Setting} {settings : List Setting}
      (comes : Comes buff { start.ask [.token setting.name] with lastToken := some setting.name } parser
        (setting.behind ++ printAll settings)) : Upcoming buff start parser (setting :: settings)

variable {setting : Setting} {settings : List Setting} {value : Str}

/-- The name of a setting ends with a character that is given back. -/
theorem Setting.behind_cons (setting : Setting) :
    ∃ stop more, setting.behind = stop :: more ∧ endsToken stop.toNat = true ∧ stop ≠ 0 := by
  unfold Setting.behind
  cases setting.value with
  | none => exact ⟨10, _, rfl, by decide, by decide⟩
  | some value => exact ⟨61, _, rfl, by decide, by decide⟩

theorem printAll_cons (setting : Setting) (settings : List Setting) :
    printAll (setting :: settings) = setting.name ++ (setting.behind ++ printAll settings) := by
  rw [printAll, List.flatMap_cons, Setting.print, List.append_assoc]
  rfl

/-- The name of the next setting is read from the buffer. -/
theorem readToken_name {blanks : List UInt8} (blank : ∀ b ∈ blanks, isSpace b.toNat = true)
    (writable : setting.Writable) (enough : buff.length + 1 < fuel)
    (comes : Comes buff start parser (blanks ++ printAll (setting :: settings))) :
    ∃ after, readToken buff fuel parser = .ok (some setting.name) after ∧
      Comes buff (start.ask [.token setting.name]) after (setting.behind ++ printAll settings) := by
  obtain ⟨stop, more, behind, ends, nul⟩ := setting.behind_cons
  rw [printAll_cons, behind, List.cons_append] at comes
  rw [behind, List.cons_append]
  exact readToken_word blank writable.some' writable.plain writable.short ends nul enough comes

theorem Setting.Writable.name_ne (writable : setting.Writable) : setting.name ≠ str "=" := by
  intro same
  obtain ⟨-, inner, -⟩ := writable.plain 61 (by rw [same]; decide)
  exact absurd inner (by decide)

theorem cfgGetToken_name (nothing : start.lastToken = none) (writable : setting.Writable)
    (enough : buff.length + 1 < fuel) (upcoming : Upcoming buff start parser (setting :: settings)) :
    ∃ after, cfgGetToken buff fuel parser = .ok (some setting.name) after ∧
      Comes buff (start.ask [.token setting.name]) after (setting.behind ++ printAll settings) := by
  cases upcoming with
  | apart blank comes =>
      rw [cfgGetToken_none (comes.lastToken.trans nothing)]
      exact readToken_name blank writable enough comes
  | named comes =>
      have given : parser.lastToken = some setting.name := comes.lastToken
      refine ⟨{ parser with lastToken := none }, ?_, ?_, comes.inside, comes.ahead⟩
      · rw [cfgGetToken, Prog.view_bind, given]
        rfl
      · rw [comes.same]
        simp only [Parser.ask, nothing]

/-- Behind a flag there is the next name, which is given back, or the end. -/
theorem nextValue_flag (item : Str) (nothing : start.lastToken = none)
    (writable : ∀ setting ∈ settings, setting.Writable) (enough : buff.length + 1 < fuel)
    (comes : Comes buff start parser (10 :: printAll settings)) :
    ∃ after, nextValue buff fuel item parser = .ok none after ∧ Upcoming buff start after settings := by
  have here : cfgGetToken buff fuel parser = readToken buff fuel parser :=
    cfgGetToken_none (comes.lastToken.trans nothing)
  cases settings with
  | nil =>
      obtain ⟨after, run, ended⟩ := readToken_end isBlank (show 1 < fuel by omega) comes
      refine ⟨after, ?_, .apart noBlank ended⟩
      rw [nextValue, Prog.bind_run_ok (here.trans run)]
      rfl
  | cons setting settings =>
      have first := writable setting List.mem_cons_self
      obtain ⟨after, run, goes⟩ := readToken_name isBlank first enough comes
      refine ⟨{ after with lastToken := some setting.name }, ?_, .named ⟨?_, goes.inside, goes.ahead⟩⟩
      · rw [nextValue, Prog.bind_run_ok (here.trans run)]
        simp only [if_pos first.name_ne]
        rfl
      · rw [goes.same]

/-- A value is read between its quotes; what comes of it is decided by `cfg_next`. -/
theorem nextValue_value (item : Str) (nothing : start.lastToken = none) (valued : Valued value)
    (enough : buff.length + 1 < fuel) (comes : Comes buff start parser (61 :: 34 :: (quote value ++ rest))) :
    ∃ after, Comes buff (start.ask [.token (str "="), .token value]) after rest ∧
      nextValue buff fuel item parser =
        if value = str "=" then .error (.syntaxErrorAfter item) after else .ok (some value) after := by
  obtain ⟨middle, first, goes⟩ := readToken_equals (show 0 < fuel by omega) comes
  obtain ⟨after, second, final⟩ := readToken_quote valued enough goes
  have equals : cfgGetToken buff fuel parser = .ok (some (str "=")) middle :=
    (cfgGetToken_none (comes.lastToken.trans nothing)).trans first
  have quoted : cfgGetToken buff fuel middle = .ok (some value) after :=
    (cfgGetToken_none (goes.lastToken.trans nothing)).trans second
  rw [ask_ask] at final
  refine ⟨after, final, ?_⟩
  rw [nextValue, Prog.bind_run_ok equals]
  simp only [ne_eq, not_true_eq_false, if_false]
  rw [Prog.bind_run_ok quoted]
  by_cases same : value = str "="
  · simp only [if_pos same]
    rfl
  · simp only [if_neg same]
    rfl

/-- Between two items there is no token or item that was given back. -/
structure Parser.Between (parser : Parser) : Prop where
  lastToken : parser.lastToken = none
  lastItem : parser.lastItem = none

theorem Upcoming.lastItem (upcoming : Upcoming buff start parser settings) :
    parser.lastItem = start.lastItem := by
  cases upcoming with
  | apart blank comes => exact comes.lastItem
  | named comes => exact comes.lastItem

/-- The name of the next item is read, and then its value. -/
theorem cfgNext_name (between : start.Between) (writable : setting.Writable) (enough : buff.length + 1 < fuel)
    (upcoming : Upcoming buff start parser (setting :: settings)) :
    ∃ middle, Comes buff (start.ask [.token setting.name]) middle (setting.behind ++ printAll settings) ∧
      cfgNext buff fuel parser =
        (nextValue buff fuel setting.name >>= fun value => pure (some (setting.name, value))) middle := by
  obtain ⟨middle, run, goes⟩ := cfgGetToken_name between.lastToken writable enough upcoming
  refine ⟨middle, goes, ?_⟩
  rw [cfgNext, Prog.view_bind, upcoming.lastItem, between.lastItem]
  simp only [Option.isSome_none, Bool.false_eq_true, if_false]
  rw [Prog.bind_run_ok run]
  simp only [if_neg writable.name_ne]

theorem cfgNext_end (between : start.Between) (enough : buff.length + 1 < fuel)
    (upcoming : Upcoming buff start parser []) :
    ∃ after, cfgNext buff fuel parser = .ok none after ∧ Comes buff start after [] := by
  cases upcoming with
  | apart blank comes =>
      rename_i blanks
      rw [printAll, List.flatMap_nil, List.append_nil] at comes
      have length := comes.length
      obtain ⟨after, run, ended⟩ := readToken_end blank (show blanks.length < fuel by omega) comes
      refine ⟨after, ?_, ended⟩
      rw [cfgNext, Prog.view_bind, comes.lastItem, between.lastItem]
      simp only [Option.isSome_none, Bool.false_eq_true, if_false]
      rw [Prog.bind_run_ok ((cfgGetToken_none (comes.lastToken.trans between.lastToken)).trans run)]
      rfl

theorem cfgNext_value (between : start.Between) (writable : setting.Writable) (valued : setting.value = some value)
    (enough : buff.length + 1 < fuel) (upcoming : Upcoming buff start parser (setting :: settings)) :
    ∃ after, Comes buff (start.ask setting.tokens) after (10 :: printAll settings) ∧
      cfgNext buff fuel parser =
        if value = str "=" then .error (.syntaxErrorAfter setting.name) after
        else .ok (some (setting.name, setting.value)) after := by
  obtain ⟨middle, goes, run⟩ := cfgNext_name between writable enough upcoming
  have behind : setting.behind ++ printAll settings = 61 :: 34 :: (quote value ++ (10 :: printAll settings)) := by
    simp [Setting.behind, valued]
  have nothing : (start.ask [.token setting.name]).lastToken = none := between.lastToken
  rw [behind] at goes
  obtain ⟨after, final, follows⟩ := nextValue_value setting.name nothing (writable.valued value valued) enough goes
  have tokens : [Request.token setting.name] ++ [.token (str "="), .token value] = setting.tokens := by
    rw [Setting.tokens, valued]
    rfl
  rw [ask_ask, tokens] at final
  refine ⟨after, final, ?_⟩
  rw [run]
  by_cases same : value = str "="
  · rw [if_pos same] at follows ⊢
    exact Prog.bind_run_error follows
  · rw [if_neg same] at follows ⊢
    rw [Prog.bind_run_ok follows, valued]
    rfl

theorem cfgNext_flag (between : start.Between) (writable : ∀ other ∈ setting :: settings, other.Writable)
    (flag : setting.value = none) (enough : buff.length + 1 < fuel)
    (upcoming : Upcoming buff start parser (setting :: settings)) :
    ∃ after, cfgNext buff fuel parser = .ok (some (setting.name, setting.value)) after ∧
      Upcoming buff (start.ask setting.tokens) after settings := by
  obtain ⟨middle, goes, run⟩ := cfgNext_name between (writable setting List.mem_cons_self) enough upcoming
  have behind : setting.behind ++ printAll settings = 10 :: printAll settings := by
    simp [Setting.behind, flag]
  have nothing : (start.ask [.token setting.name]).lastToken = none := between.lastToken
  have tokens : [Request.token setting.name] = setting.tokens := by rw [Setting.tokens, flag]
  rw [behind] at goes
  obtain ⟨after, follows, final⟩ := nextValue_flag setting.name nothing
    (fun other mem => writable other (List.mem_cons_of_mem _ mem)) enough goes
  rw [tokens] at final
  refine ⟨after, ?_, final⟩
  rw [run, Prog.bind_run_ok follows, flag]
  rfl

/-! ## Tables -/

/-- A new image for the item `image`. -/
def Parser.opened (parser : Parser) (item : Str) : Parser :=
  if equalNoCase item (str "image") then
    { parser with requests := parser.requests ++ [.image], images := parser.images ++ [cfImage] }
  else parser

/-- The current table with the item set, if it has the item. -/
def Parser.put (parser : Parser) (item : Str) (value : Option Str) : Option Parser :=
  (Table.set item value parser.currTable).map parser.setTable

/-- What a setting that is known leaves behind. -/
def Parser.take (parser : Parser) (setting : Setting) : Option Parser :=
  ((parser.ask setting.tokens).opened setting.name).put setting.name setting.value

def Parser.takeAll (parser : Parser) (settings : List Setting) : Option Parser :=
  settings.foldlM Parser.take parser

/-- Only the tables and the requests changed. -/
theorem put_same {item : Str} {value : Option Str} {final : Parser} (put : parser.put item value = some final) :
    final = { parser with options := final.options, images := final.images } := by
  obtain ⟨table, -, rfl⟩ := Option.map_eq_some_iff.mp put
  unfold Parser.setTable
  split
  · rfl
  · rfl

/-- The tables do not depend on the place in the text. -/
theorem put_like {other final : Parser} {item : Str} {value : Option Str} (put : parser.put item value = some final)
    (options : other.options = parser.options) (images : other.images = parser.images) :
    other.put item value = some { other with options := final.options, images := final.images } := by
  obtain ⟨table, set, rfl⟩ := Option.map_eq_some_iff.mp put
  have same : other.currTable = parser.currTable := by rw [Parser.currTable, Parser.currTable, options, images]
  rw [Parser.put, same, set, Option.map_some]
  unfold Parser.setTable
  rw [images]
  split
  · rw [← images]
  · rw [← options]

theorem cfgSet_put {final : Parser} {item : Str} {value : Option Str}
    (put : (parser.opened item).put item value = some final) : cfgSet item value parser = .ok true final := by
  have stores {before : Parser} (put : before.put item value = some final) :
      setItem item value before = .ok true final := by
    obtain ⟨table, set, rfl⟩ := Option.map_eq_some_iff.mp put
    rw [setItem, set]
  unfold cfgSet
  unfold Parser.opened at put
  split
  · rename_i image
    rw [if_pos image] at put
    exact stores put
  · rename_i other
    rw [if_neg other] at put
    exact stores put

theorem Comes.opened {item : Str} (comes : Comes buff start parser rest) :
    Comes buff (start.opened item) (parser.opened item) rest := by
  unfold Parser.opened
  split
  · exact ⟨by rw [comes.same], comes.inside, comes.ahead⟩
  · exact comes

theorem Comes.put {item : Str} {value : Option Str} {final : Parser} (comes : Comes buff start parser rest)
    (put : start.put item value = some final) :
    ∃ after, parser.put item value = some after ∧ Comes buff final after rest := by
  refine ⟨_, put_like put (by rw [comes.same]) (by rw [comes.same]), ?_, comes.inside, comes.ahead⟩
  rw [put_same put, comes.same]

theorem Comes.take {final : Parser} (comes : Comes buff (start.ask setting.tokens) parser rest)
    (take : start.take setting = some final) :
    ∃ after, cfgSet setting.name setting.value parser = .ok true after ∧ Comes buff final after rest := by
  obtain ⟨after, put, goes⟩ := comes.opened.put take
  exact ⟨after, cfgSet_put put, goes⟩

/-- A flag is set while the name of the next setting may have been read. -/
theorem Upcoming.take {final : Parser} (flag : equalNoCase setting.name (str "image") = false)
    (upcoming : Upcoming buff (start.ask setting.tokens) parser settings) (take : start.take setting = some final) :
    ∃ after, cfgSet setting.name setting.value parser = .ok true after ∧ Upcoming buff final after settings := by
  cases upcoming with
  | apart blank comes =>
      obtain ⟨after, set, goes⟩ := comes.take take
      exact ⟨after, set, .apart blank goes⟩
  | named comes =>
      have unopened (other : Parser) : other.opened setting.name = other := by
        rw [Parser.opened, flag]
        rfl
      rw [Parser.take, unopened] at take
      obtain ⟨after, put, goes⟩ := comes.put (put_like take rfl rfl)
      refine ⟨after, cfgSet_put ?_, .named ?_⟩
      · rw [unopened]
        exact put
      · rw [put_same take]
        exact goes

theorem Parser.Between.take {final : Parser} (between : start.Between) (take : start.take setting = some final) :
    final.Between := by
  have opened (parser : Parser) : (parser.opened setting.name).lastToken = parser.lastToken ∧
      (parser.opened setting.name).lastItem = parser.lastItem := by
    unfold Parser.opened
    split
    · exact ⟨rfl, rfl⟩
    · exact ⟨rfl, rfl⟩
  rw [put_same take]
  exact ⟨(opened _).1.trans between.lastToken, (opened _).2.trans between.lastItem⟩

/-! ## All settings -/

/-- One setting is read and stored, and then the others are ahead. -/
theorem parseItems_step (items : Nat) {final : Parser} (between : start.Between)
    (writable : ∀ other ∈ setting :: settings, other.Writable) (ordinary : setting.value ≠ some (str "="))
    (take : start.take setting = some final) (enough : buff.length + 1 < fuel)
    (upcoming : Upcoming buff start parser (setting :: settings)) :
    ∃ after, parseItems buff fuel (items + 1) parser = parseItems buff fuel items after ∧
      Upcoming buff final after settings := by
  have first := writable setting List.mem_cons_self
  have loop {middle after : Parser}
      (next : cfgNext buff fuel parser = .ok (some (setting.name, setting.value)) middle)
      (set : cfgSet setting.name setting.value middle = .ok true after) :
      parseItems buff fuel (items + 1) parser = parseItems buff fuel items after := by
    rw [parseItems, Prog.bind_run_ok next]
    simp only [Prog.bind_run_ok set, if_true]
  cases valued : setting.value with
  | some value =>
      obtain ⟨middle, goes, next⟩ := cfgNext_value between first valued enough upcoming
      have other : value ≠ str "=" := by
        rintro rfl
        exact ordinary valued
      rw [if_neg other] at next
      obtain ⟨after, set, comes⟩ := goes.take take
      exact ⟨after, loop next set, .apart isBlank comes⟩
  | none =>
      have flag : equalNoCase setting.name (str "image") = false :=
        Bool.eq_false_iff.mpr fun image => first.opens image valued
      obtain ⟨middle, next, goes⟩ := cfgNext_flag between writable valued enough upcoming
      obtain ⟨after, set, comes⟩ := goes.take flag take
      exact ⟨after, loop next set, comes⟩

/-- Settings that are all known are stored one after the other, up to the end. -/
theorem parseItems_done {items : Nat} {final : Parser} (between : start.Between)
    (writable : ∀ setting ∈ settings, setting.Writable)
    (ordinary : ∀ setting ∈ settings, setting.value ≠ some (str "="))
    (takes : start.takeAll settings = some final) (enough : buff.length + 1 < fuel)
    (all : settings.length < items) (upcoming : Upcoming buff start parser settings) :
    ∃ after, parseItems buff fuel items parser = .ok 0 after ∧ Comes buff final after [] := by
  induction settings generalizing start parser items with
  | nil =>
      obtain ⟨items, rfl⟩ : ∃ less, items = less + 1 := ⟨items - 1, by rw [List.length_nil] at all; omega⟩
      obtain ⟨after, next, ended⟩ := cfgNext_end between enough upcoming
      cases takes
      exact ⟨after, by rw [parseItems, Prog.bind_run_ok next]; rfl, ended⟩
  | cons setting settings ih =>
      rw [List.length_cons] at all
      obtain ⟨items, rfl⟩ : ∃ less, items = less + 1 := ⟨items - 1, by omega⟩
      obtain ⟨middle, take, rest⟩ := Option.bind_eq_some_iff.mp takes
      obtain ⟨after, step, goes⟩ := parseItems_step items between writable
        (ordinary setting List.mem_cons_self) take enough upcoming
      rw [step]
      exact ih (between.take take) (fun other mem => writable other (List.mem_cons_of_mem _ mem))
        (fun other mem => ordinary other (List.mem_cons_of_mem _ mem)) rest (by omega) goes

/-- A value that is an equals sign ends the parse, wherever it is. -/
theorem parseItems_equals {items : Nat} {final : Parser} (between : start.Between)
    (writable : ∀ setting ∈ settings, setting.Writable)
    (equals : ∃ setting ∈ settings, setting.value = some (str "="))
    (takes : start.takeAll settings = some final) (enough : buff.length + 1 < fuel)
    (all : settings.length < items) (upcoming : Upcoming buff start parser settings) :
    ∃ code after, parseItems buff fuel items parser = .error code after := by
  induction settings generalizing start parser items with
  | nil =>
      obtain ⟨setting, mem, -⟩ := equals
      exact absurd mem List.not_mem_nil
  | cons setting settings ih =>
      rw [List.length_cons] at all
      obtain ⟨items, rfl⟩ : ∃ less, items = less + 1 := ⟨items - 1, by omega⟩
      by_cases here : setting.value = some (str "=")
      · obtain ⟨after, -, next⟩ := cfgNext_value between (writable setting List.mem_cons_self) here enough upcoming
        rw [if_pos rfl] at next
        exact ⟨_, after, by rw [parseItems, Prog.bind_run_error next]⟩
      · obtain ⟨middle, take, rest⟩ := Option.bind_eq_some_iff.mp takes
        obtain ⟨after, step, goes⟩ := parseItems_step items between writable here take enough upcoming
        obtain ⟨other, mem, same⟩ := equals
        obtain rfl | later := List.mem_cons.mp mem
        · exact absurd same here
        · rw [step]
          exact ih (between.take take) (fun other mem => writable other (List.mem_cons_of_mem _ mem))
            ⟨other, later, same⟩ rest (by omega) goes

end IQuik.Config
