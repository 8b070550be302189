import IQuik.Config.RoundTrip
import IQuik.Program.Agreement

namespace IQuik.Config

open IQuik.Data IQuik.Program

/-! # The sections of a configuration

The text is cut into settings, whatever the tables are; the tables take the settings
one by one. -/

/-- `cf_options`, and the tables of the images. -/
structure Tables where
  options : Table
  images : List Table

def Parser.tables (parser : Parser) : Tables := ⟨parser.options, parser.images⟩

/-- A setting that starts the section of an image. -/
def Setting.Opens (setting : Setting) : Bool := equalNoCase setting.name (str "image")

def Setting.Listed (table : Table) (setting : Setting) : Bool :=
  table.any fun entry => equalNoCase entry.name setting.name

/-- The entries of the section that a setting is for. -/
def sectionOf (inImage : Bool) (setting : Setting) : Table :=
  if inImage || setting.Opens then cfImage else cfOptions

/-- The settings that `cfg_next` finds, up to a mistake or to one that its section
does not have. -/
def settingsFrom (buff : List UInt8) (inner : Nat) : (fuel : Nat) → (inImage : Bool) → Parser → List Setting
  | 0, _, _ => []
  | fuel + 1, inImage, parser =>
      match cfgNext buff inner parser with
      | .ok (some item) after =>
          let setting : Setting := ⟨item.1, item.2⟩
          if setting.Listed (sectionOf inImage setting) then
            setting :: settingsFrom buff inner fuel (inImage || setting.Opens) after
          else []
      | _ => []

def settingsOf (buff : List UInt8) (fuel : Nat) : List Setting := settingsFrom buff fuel fuel false .fresh

/-- A setting that is taken by a table which has it. -/
def Table.take (table : Table) (setting : Setting) : Table :=
  (Table.set setting.name setting.value table).getD table

/-- The section that was started last takes the setting; an image starts a new one. -/
def Tables.take (tables : Tables) (setting : Setting) : Tables :=
  if setting.Opens then { tables with images := tables.images ++ [cfImage.take setting] }
  else if tables.images = [] then { tables with options := tables.options.take setting }
  else { tables with images := tables.images.dropLast ++ [(tables.images.getLast?.getD cfImage).take setting] }

/-- What a configuration comes to. -/
def Tables.ofSettings (settings : List Setting) : Tables := settings.foldl Tables.take ⟨cfOptions, []⟩

/-! ## Reading does not depend on the tables -/

/-- The two parsers are at the same place of the text, and the second has the tables. -/
structure SameText (tables : Tables) (reader parser : Parser) : Prop where
  same : ∃ requests, parser =
    { reader with options := tables.options, images := tables.images, requests := requests }
  valued : ∀ token ∈ reader.lastToken, Valued token
  lastItem : reader.lastItem = none

/-- A program that reads the text, with values that satisfy `holds`. -/
abbrev OnText {α : Type} (tables : Tables) (holds : α → Prop) (program : ParseProg α) : Prop :=
  program.Agrees False False (SameText tables) (SameText tables) (SameText tables) holds program

section Reading

variable {tables : Tables} {buff : List UInt8}

theorem OnText.pure {α : Type} {holds : α → Prop} {value : α} (property : holds value) :
    OnText tables holds (pure value) :=
  Prog.Agrees.pure property

theorem OnText.fail {α : Type} {holds : α → Prop} (code : ConfigError) :
    OnText tables holds (Prog.fail code : ParseProg α) :=
  Prog.Agrees.fail code fun _ _ same => same

theorem OnText.bind {α β : Type} {holds : α → Prop} {holdsNext : β → Prop} {first : ParseProg α}
    {next : α → ParseProg β} (begins : OnText tables holds first)
    (goes : ∀ value, holds value → OnText tables holdsNext (next value)) : OnText tables holdsNext (first >>= next) :=
  Prog.Agrees.bind begins goes

theorem OnText.ite {α : Type} {holds : α → Prop} {condition : Prop} [Decidable condition] {yes no : ParseProg α}
    (whenYes : condition → OnText tables holds yes) (whenNo : ¬condition → OnText tables holds no) :
    OnText tables holds (if condition then yes else no) :=
  Prog.Agrees.ite whenYes whenNo

theorem getc_onText : OnText tables (fun _ => True) (getc buff) := by
  have place : OnText tables (fun _ => True) (Prog.view Parser.currp) := Prog.Agrees.view fun _ _ same => by
    obtain ⟨⟨requests, rfl⟩, -⟩ := same
    exact ⟨rfl, trivial⟩
  refine place.bind fun currp _ => .ite (fun _ => .pure trivial) fun _ => ?_
  refine OnText.bind Prog.Agrees.definedAny fun c _ => OnText.bind (Prog.Agrees.update fun _ _ same => ?_)
    fun _ _ => .pure trivial
  obtain ⟨⟨requests, rfl⟩, valued, lastItem⟩ := same
  exact ⟨⟨requests, rfl⟩, valued, lastItem⟩

theorem again_onText (ch : Int) : OnText tables (fun _ => True) (again ch) := by
  refine Prog.Agrees.update fun _ _ same => ?_
  obtain ⟨⟨requests, rfl⟩, valued, lastItem⟩ := same
  exact ⟨⟨requests, rfl⟩, valued, lastItem⟩

theorem next_onText : OnText tables (fun _ => True) (next buff) := by
  have given : OnText tables (fun _ => True) (Prog.view Parser.back) := Prog.Agrees.view fun _ _ same => by
    obtain ⟨⟨requests, rfl⟩, -⟩ := same
    exact ⟨rfl, trivial⟩
  exact given.bind fun ch _ => .ite (fun _ => getc_onText) fun _ => (again_onText 0).bind fun _ _ => .pure trivial

theorem skipWhile_onText (skipped : Int → Bool) (fuel : Nat) :
    OnText tables (fun _ => True) (skipWhile buff skipped fuel) := by
  induction fuel with
  | zero => exact Prog.Agrees.unfinished
  | succ fuel ih => exact next_onText.bind fun ch _ => .ite (fun _ => ih) fun _ => .pure trivial

theorem skipComments_onText (outer fuel : Nat) : OnText tables (fun _ => True) (skipComments buff outer fuel) := by
  induction outer with
  | zero => exact Prog.Agrees.unfinished
  | succ outer ih =>
      refine (skipWhile_onText isSpace fuel).bind fun ch _ => .ite (fun _ => .pure trivial) fun _ => ?_
      exact (skipWhile_onText _ fuel).bind fun ch _ => .ite (fun _ => .pure trivial) fun _ => ih

theorem store_onText (stored : Str) (ch : Int) : OnText tables (fun _ => True) (store stored ch) :=
  OnText.bind (Prog.Agrees.demand _) fun _ _ => .pure trivial

theorem finish_onText {stored : Str} (room : stored.length < maxToken) : OnText tables Valued (finish stored) := by
  have valued : Valued (stored.takeWhile (· ≠ 0)) := by
    refine ⟨fun c mem => ?_, Nat.lt_of_le_of_lt (List.takeWhile_prefix _).length_le room⟩
    have nonzero := List.mem_takeWhile_imp mem
    exact of_decide_eq_true nonzero
  refine OnText.bind (Prog.Agrees.demand _) fun _ _ => OnText.bind (Prog.Agrees.update fun _ _ same => ?_)
    fun _ _ => .pure valued
  obtain ⟨⟨requests, rfl⟩, valued, lastItem⟩ := same
  exact ⟨⟨_, rfl⟩, valued, lastItem⟩

theorem quoted_onText (inner fuel : Nat) (stored : Str) : OnText tables Valued (quoted buff inner fuel stored) := by
  induction fuel generalizing stored with
  | zero => exact Prog.Agrees.unfinished
  | succ fuel ih =>
      have stores (ch : Int) : OnText tables Valued (store stored ch >>= quoted buff inner fuel) :=
        (store_onText stored ch).bind fun stored _ => ih stored
      refine .ite (fun room => ?_) fun _ => .fail _
      refine next_onText.bind fun ch _ => .ite (fun _ => .fail _) fun _ => ?_
      refine .ite (fun _ => finish_onText room) fun _ => .ite (fun _ => ?_) fun _ => ?_
      · refine next_onText.bind fun ch _ => .ite (fun _ => stores ch) fun _ => .ite (fun _ => ?_) fun _ => ?_
        · refine (skipWhile_onText isIndent inner).bind fun ch _ => .ite (fun _ => ih stored) fun _ => ?_
          exact (again_onText ch).bind fun _ _ => stores 32
        · exact .ite (fun _ => stores 10) fun _ => .fail _
      · exact .ite (fun _ => .fail _) fun _ => stores ch

theorem bare_onText (fuel : Nat) (stored : Str) (escaped : Bool) (ch : Int) :
    OnText tables Valued (bare buff fuel stored escaped ch) := by
  induction fuel generalizing stored escaped ch with
  | zero => exact Prog.Agrees.unfinished
  | succ fuel ih =>
      have goes (stored : Str) (escaped : Bool) :
          OnText tables Valued (next buff >>= fun ch => bare buff fuel stored escaped ch) :=
        next_onText.bind fun ch _ => ih stored escaped ch
      have stores (ch : Int) : OnText tables Valued
          (store stored ch >>= fun stored => next buff >>= fun ch => bare buff fuel stored false ch) :=
        (store_onText stored ch).bind fun stored _ => goes stored false
      refine .ite (fun room => .ite (fun _ => ?_) fun _ => ?_) fun _ => .fail _
      · exact .ite (fun _ => .fail _) fun _ => .ite (fun _ => goes stored false) fun _ => stores _
      · refine .ite (fun _ => ?_) fun _ => .ite (fun _ => goes stored true) fun _ => stores ch
        exact (again_onText ch).bind fun _ _ => finish_onText room

theorem tokenAt_onText (fuel : Nat) (ch : Int) : OnText tables Valued (tokenAt buff fuel ch) :=
  .ite (fun _ => finish_onText (by decide)) fun _ => .ite (fun _ => quoted_onText _ _ _) fun _ => bare_onText _ _ _ _

theorem readToken_onText (fuel : Nat) :
    OnText tables (fun token => ∀ text ∈ token, Valued text) (readToken buff fuel) := by
  refine (skipComments_onText fuel fuel).bind fun ch _ => .ite (fun _ => .pure (by simp)) fun _ => ?_
  refine (tokenAt_onText fuel ch).bind fun text valued => .pure ?_
  rintro _ ⟨⟩
  exact valued

theorem cfgGetToken_onText (fuel : Nat) :
    OnText tables (fun token => ∀ text ∈ token, Valued text) (cfgGetToken buff fuel) := by
  have given : OnText tables (fun token => ∀ text ∈ token, Valued text) (Prog.view Parser.lastToken) :=
    Prog.Agrees.view fun _ _ same => by
      obtain ⟨⟨requests, rfl⟩, valued, -⟩ := same
      exact ⟨rfl, valued⟩
  refine given.bind fun token valued => .ite (fun _ => ?_) fun _ => readToken_onText fuel
  refine OnText.bind (Prog.Agrees.update fun _ _ same => ?_) fun _ _ => .pure valued
  obtain ⟨⟨requests, rfl⟩, -, lastItem⟩ := same
  exact ⟨⟨requests, rfl⟩, nofun, lastItem⟩

theorem nextValue_onText (fuel : Nat) (item : Str) :
    OnText tables (fun value => ∀ text ∈ value, Valued text) (nextValue buff fuel item) := by
  refine (cfgGetToken_onText fuel).bind fun this valued => ?_
  cases this with
  | none => exact .pure (by simp)
  | some this =>
      refine .ite (fun _ => ?_) fun _ => (cfgGetToken_onText fuel).bind fun value valued => ?_
      · refine OnText.bind (Prog.Agrees.update fun _ _ same => ?_) fun _ _ => .pure (by simp)
        obtain ⟨⟨requests, rfl⟩, -, lastItem⟩ := same
        exact ⟨⟨requests, rfl⟩, valued, lastItem⟩
      · cases value with
        | none => exact .fail _
        | some value => exact .ite (fun _ => .fail _) fun _ => .pure valued

/-- The next setting does not depend on the tables, and has values that fit. -/
theorem cfgNext_onText (buff : List UInt8) (fuel : Nat) :
    OnText tables (fun item => ∀ setting ∈ item, ∀ value ∈ setting.2, Valued value) (cfgNext buff fuel) := by
  have given : OnText tables (· = none) (Prog.view Parser.lastItem) := Prog.Agrees.view fun _ _ same => by
    obtain ⟨⟨requests, rfl⟩, -, lastItem⟩ := same
    exact ⟨rfl, lastItem⟩
  refine given.bind fun lastItem nothing => ?_
  subst nothing
  refine (cfgGetToken_onText fuel).bind fun item _ => ?_
  cases item with
  | none => exact .pure (by simp)
  | some item =>
      refine .ite (fun _ => .fail _) fun _ => (nextValue_onText fuel item).bind fun value valued => .pure ?_
      rintro _ ⟨⟩
      exact valued

end Reading

/-! ## One setting in a table -/

variable {table : Table} {setting : Setting} {key : Str}

theorem equalNoCase_iff {s t : Str} : equalNoCase s t = true ↔ s.map tolower = t.map tolower := beq_iff_eq

theorem set_listed (listed : setting.Listed table = true) :
    Table.set setting.name setting.value table = some (table.take setting) := by
  suffices some' : (Table.set setting.name setting.value table).isSome = true by
    rw [Table.take, Option.eq_some_of_isSome some', Option.getD_some]
  induction table with
  | nil => cases listed
  | cons entry table ih =>
      rw [Table.set]
      by_cases here : equalNoCase entry.name setting.name = true
      · rw [if_pos here]
        rfl
      · have later : setting.Listed table = true := by
          rw [Setting.Listed, List.any_cons, Bool.eq_false_iff.mpr here] at listed
          exact listed
        rw [if_neg here, Option.isSome_map]
        exact ih later

theorem set_unlisted (unlisted : setting.Listed table = false) :
    Table.set setting.name setting.value table = none := by
  induction table with
  | nil => rfl
  | cons entry table ih =>
      rw [Setting.Listed, List.any_cons, Bool.or_eq_false_iff] at unlisted
      rw [Table.set, if_neg (Bool.eq_false_iff.mp unlisted.1), ih unlisted.2]
      rfl

theorem take_cons (entry : Entry) (table : Table) (setting : Setting) :
    Table.take (entry :: table) setting =
      if equalNoCase entry.name setting.name then entry.set setting.value :: table
      else entry :: table.take setting := by
  rw [Table.take, Table.set]
  by_cases here : equalNoCase entry.name setting.name = true
  · rw [if_pos here, if_pos here]
    rfl
  · rw [if_neg here, if_neg here, Table.take]
    cases Table.set setting.name setting.value table
    · rfl
    · rfl

theorem Entry.set_shape (entry : Entry) (value : Option Str) : (entry.set value).shape = entry.shape := by
  obtain ⟨kind, name, data⟩ := entry
  cases value
  · cases kind
    · rfl
    · rfl
  · cases kind
    · rfl
    · rfl

theorem Entry.set_strg {entry : Entry} (type : entry.type = .strg) (value : Option Str) :
    (entry.set value).data = value.or entry.data := by
  obtain ⟨kind, name, data⟩ := entry
  obtain rfl : kind = .strg := type
  cases value
  · rfl
  · rfl

theorem take_shape (table : Table) (setting : Setting) :
    (table.take setting).map Entry.shape = table.map Entry.shape := by
  induction table with
  | nil => rfl
  | cons entry table ih =>
      rw [take_cons]
      by_cases here : equalNoCase entry.name setting.name = true
      · rw [if_pos here, List.map_cons, List.map_cons, Entry.set_shape]
      · rw [if_neg here, List.map_cons, List.map_cons, ih]

theorem listed_shape {other : Table} (same : other.map Entry.shape = table.map Entry.shape) (setting : Setting) :
    setting.Listed other = setting.Listed table := by
  have names (table : Table) : setting.Listed table =
      (table.map Entry.shape).any fun shape => equalNoCase shape.2 setting.name := by
    rw [List.any_map]
    rfl
  rw [names, names, same]

theorem lookup_take_other (table : Table) (other : equalNoCase setting.name key = false) :
    cfgGetStrgI (table.take setting) key = cfgGetStrgI table key := by
  induction table with
  | nil => rfl
  | cons entry table ih =>
      rw [take_cons]
      by_cases here : equalNoCase entry.name setting.name = true
      · have apart : ¬equalNoCase entry.name key = true := by
          rw [equalNoCase_iff, equalNoCase_iff.mp here, ← equalNoCase_iff, other]
          exact Bool.false_ne_true
        have name : (entry.set setting.value).name = entry.name := congrArg Prod.snd (entry.set_shape setting.value)
        rw [if_pos here, cfgGetStrgI_cons, cfgGetStrgI_cons, name, if_neg apart, if_neg apart]
      · rw [if_neg here, cfgGetStrgI_cons, cfgGetStrgI_cons, ih]

/-- The table has values under that name. -/
def Table.Strg (table : Table) (key : Str) : Prop :=
  ∀ shape ∈ table.map Entry.shape, equalNoCase shape.2 key = true → shape.1 = .strg

/-- An option with a value keeps the last one. -/
theorem lookup_take_same (strg : table.Strg key) (listed : setting.Listed table = true)
    (same : equalNoCase setting.name key = true) :
    cfgGetStrgI (table.take setting) key = setting.value.or (cfgGetStrgI table key) := by
  induction table with
  | nil => cases listed
  | cons entry table ih =>
      have like : equalNoCase entry.name key = equalNoCase entry.name setting.name := by
        rw [equalNoCase, equalNoCase, equalNoCase_iff.mp same]
      rw [take_cons]
      by_cases here : equalNoCase entry.name setting.name = true
      · have asked : equalNoCase entry.name key = true := like.trans here
        have type : entry.type = .strg := strg entry.shape (List.mem_map_of_mem List.mem_cons_self) asked
        have name : (entry.set setting.value).name = entry.name := congrArg Prod.snd (entry.set_shape setting.value)
        rw [if_pos here, cfgGetStrgI_cons, cfgGetStrgI_cons, name, if_pos asked, if_pos asked, Entry.set_strg type]
      · have apart : ¬equalNoCase entry.name key = true := by rwa [like]
        have later : setting.Listed table = true := by
          rw [Setting.Listed, List.any_cons, Bool.eq_false_iff.mpr here] at listed
          exact listed
        rw [if_neg here, cfgGetStrgI_cons, cfgGetStrgI_cons, if_neg apart, if_neg apart]
        exact ih (fun shape mem => strg shape (List.mem_cons_of_mem _ mem)) later

def Table.Valued (table : Table) : Prop := ∀ entry ∈ table, ∀ value ∈ entry.data, Config.Valued value

theorem valued_take (valued : table.Valued) (fits : ∀ value ∈ setting.value, Config.Valued value) :
    (table.take setting).Valued := by
  induction table with
  | nil => exact valued
  | cons entry table ih =>
      obtain ⟨first, others⟩ := List.forall_mem_cons.mp valued
      rw [take_cons]
      by_cases here : equalNoCase entry.name setting.name = true
      · rw [if_pos here]
        refine List.forall_mem_cons.mpr ⟨?_, others⟩
        have empty : Config.Valued [] := ⟨nofun, by decide⟩
        obtain ⟨kind, name, data⟩ := entry
        obtain ⟨item, value⟩ := setting
        cases value with
        | none =>
            cases kind with
            | strg => exact first
            | flag =>
                rintro _ ⟨⟩
                exact empty
        | some value =>
            cases kind with
            | strg => exact fits
            | flag => exact first
      · rw [if_neg here]
        exact List.forall_mem_cons.mpr ⟨first, ih others⟩

theorem Table.Valued.lookup (valued : table.Valued) (key : Str) : ∀ value ∈ cfgGetStrgI table key, Config.Valued value := by
  intro value found
  obtain ⟨entry, finds, data⟩ := Option.bind_eq_some_iff.mp found
  exact valued entry (List.mem_of_find?_eq_some finds) value data

/-! ## All settings -/

/-- The tables have the entries of `cf_options` and of `cf_image`. -/
structure Tables.Proper (tables : Tables) : Prop where
  options : tables.options.map Entry.shape = cfOptions.map Entry.shape
  images : ∀ image ∈ tables.images, image.map Entry.shape = cfImage.map Entry.shape

structure Tables.Valued (tables : Tables) : Prop where
  options : tables.options.Valued
  images : ∀ image ∈ tables.images, image.Valued

/-- What holds of the first tables, and is kept by a table that takes a setting, holds of all. -/
theorem take_keeps (setting : Setting) {tables : Tables} {options : Table → Prop} (images : Table → Prop)
    (before : options tables.options)
    (befores : ∀ image ∈ tables.images, images image) (fresh : images cfImage)
    (keepsOptions : ∀ table, options table → options (table.take setting))
    (keepsImages : ∀ table, images table → images (table.take setting)) :
    options (tables.take setting).options ∧ ∀ image ∈ (tables.take setting).images, images image := by
  rw [Tables.take]
  by_cases opens : setting.Opens = true
  · rw [if_pos opens]
    refine ⟨before, List.forall_mem_append.mpr ⟨befores, ?_⟩⟩
    exact List.forall_mem_singleton.mpr (keepsImages _ fresh)
  · rw [if_neg opens]
    by_cases first : tables.images = []
    · rw [if_pos first]
      exact ⟨keepsOptions _ before, befores⟩
    · rw [if_neg first]
      refine ⟨before, List.forall_mem_append.mpr ⟨fun image mem => befores image (List.dropLast_subset _ mem), ?_⟩⟩
      refine List.forall_mem_singleton.mpr (keepsImages _ ?_)
      rw [List.getLast?_eq_some_getLast first]
      exact befores _ (List.getLast_mem first)

theorem Tables.Proper.take {tables : Tables} (proper : tables.Proper) (setting : Setting) :
    (tables.take setting).Proper := by
  obtain ⟨options, images⟩ := take_keeps setting (fun image => image.map Entry.shape = _)
    proper.options proper.images rfl (fun table same => (take_shape table setting).trans same)
    fun table same => (take_shape table setting).trans same
  exact ⟨options, images⟩

theorem cfImage_valued : cfImage.Valued := by
  intro entry mem value found
  have unset : ∀ data ∈ cfImage.map Entry.data, data = none := by decide
  rw [unset entry.data (List.mem_map_of_mem mem)] at found
  cases found

theorem cfOptions_valued : cfOptions.Valued := by
  intro entry mem value found
  have unset : ∀ data ∈ cfOptions.map Entry.data, data = none := by decide
  rw [unset entry.data (List.mem_map_of_mem mem)] at found
  cases found

theorem Tables.Valued.take {tables : Tables} (valued : tables.Valued)
    (fits : ∀ value ∈ setting.value, Config.Valued value) : (tables.take setting).Valued := by
  obtain ⟨options, images⟩ := take_keeps setting Table.Valued valued.options valued.images cfImage_valued
    (fun table valued => valued_take valued fits) fun table valued => valued_take valued fits
  exact ⟨options, images⟩

theorem opens_listed (opens : setting.Opens = true) : setting.Listed cfImage = true := by
  have same : equalNoCase (str "image") setting.name = true := by
    rw [equalNoCase_iff]
    exact (equalNoCase_iff.mp opens).symm
  rw [Setting.Listed, List.any_eq_true]
  exact ⟨strgEntry "image", List.mem_cons_self, same⟩

variable {parser : Parser}

/-- A setting that its section has is taken by the tables. -/
theorem cfgSet_listed (proper : parser.tables.Proper)
    (listed : setting.Listed (sectionOf (decide (parser.images ≠ [])) setting) = true) :
    ∃ requests, cfgSet setting.name setting.value parser = .ok true { parser with
      options := (parser.tables.take setting).options
      images := (parser.tables.take setting).images
      requests := requests } := by
  by_cases opens : setting.Opens = true
  · refine ⟨parser.requests ++ [.image], cfgSet_put ?_⟩
    have opened : parser.opened setting.name =
        { parser with requests := parser.requests ++ [.image], images := parser.images ++ [cfImage] } := if_pos opens
    have current : (parser.opened setting.name).currTable = cfImage := by
      simp [opened, Parser.currTable]
    rw [Parser.put, current, set_listed (opens_listed opens), opened, Tables.take, if_pos opens]
    simp [Parser.setTable, Parser.tables]
  · refine ⟨parser.requests, cfgSet_put ?_⟩
    have opened : parser.opened setting.name = parser := if_neg opens
    rw [opened, Parser.put, Parser.currTable, Tables.take, if_neg opens]
    by_cases first : parser.images = []
    · have home : setting.Listed parser.options = true := by
        rw [listed_shape (show parser.options.map Entry.shape = _ from proper.options)]
        simpa [sectionOf, first, opens] using listed
      simp [first, set_listed home, Parser.tables, Parser.setTable]
    · have home : setting.Listed (parser.images.getLast first) = true := by
        rw [listed_shape (proper.images _ (List.getLast_mem first))]
        simpa [sectionOf, first, opens] using listed
      simp [first, List.getLast?_eq_some_getLast first, set_listed home, Parser.tables, Parser.setTable]

theorem cfgSet_unlisted (proper : parser.tables.Proper)
    (unlisted : setting.Listed (sectionOf (decide (parser.images ≠ [])) setting) = false) :
    ∃ after, cfgSet setting.name setting.value parser = .ok false after ∧ after.tables = parser.tables := by
  have opens : setting.Opens = false := by
    by_contra other
    have opens : setting.Opens = true := by simpa using other
    rw [sectionOf, opens, Bool.or_true, if_pos rfl, opens_listed opens] at unlisted
    cases unlisted
  have missing : Table.set setting.name setting.value parser.currTable = none := by
    refine set_unlisted ?_
    rw [Parser.currTable]
    by_cases first : parser.images = []
    · rw [first, List.getLast?_nil, Option.getD_none,
        listed_shape (show parser.options.map Entry.shape = _ from proper.options)]
      simpa [sectionOf, first, opens] using unlisted
    · rw [List.getLast?_eq_some_getLast first, Option.getD_some,
        listed_shape (proper.images _ (List.getLast_mem first))]
      simpa [sectionOf, first, opens] using unlisted
  have plain : equalNoCase setting.name (str "image") = false := opens
  rw [cfgSet, plain, if_neg Bool.false_ne_true, setItem, missing]
  exact ⟨_, rfl, rfl⟩

/-! ## The whole text -/

variable {buff : List UInt8} {tables : Tables} {reader : Parser}

theorem take_opened (tables : Tables) (setting : Setting) :
    decide ((tables.take setting).images ≠ []) = (decide (tables.images ≠ []) || setting.Opens) := by
  rw [Tables.take]
  by_cases opens : setting.Opens = true
  · simp [opens]
  · by_cases first : tables.images = []
    · simp [opens, first]
    · simp [opens, first]

theorem settingsFrom_item {item : Str × Option Str} {next : Parser} {inner : Nat}
    (reads : cfgNext buff inner reader = .ok (some item) next) (fuel : Nat) (inImage : Bool) :
    settingsFrom buff inner (fuel + 1) inImage reader =
      if Setting.Listed (sectionOf inImage ⟨item.1, item.2⟩) ⟨item.1, item.2⟩ then
        ⟨item.1, item.2⟩ :: settingsFrom buff inner fuel (inImage || Setting.Opens ⟨item.1, item.2⟩) next
      else [] := by
  rw [settingsFrom, reads]

theorem SameText.tables_eq (same : SameText tables reader parser) : parser.tables = tables := by
  obtain ⟨⟨requests, rfl⟩, -⟩ := same
  rfl

theorem SameText.take {other : Tables} (same : SameText tables reader parser) (requests : List Request) :
    SameText other reader { parser with options := other.options, images := other.images, requests := requests } := by
  obtain ⟨⟨requests, rfl⟩, valued, lastItem⟩ := same
  exact ⟨⟨_, rfl⟩, valued, lastItem⟩

/-- A parse takes the settings of the text, as far as it comes. -/
theorem parseItems_tables (inner fuel : Nat) (same : SameText tables reader parser) (proper : tables.Proper) :
    ∀ after ∈ (parseItems buff inner fuel parser).state?,
      after.tables = (settingsFrom buff inner fuel (decide (tables.images ≠ [])) reader).foldl Tables.take tables := by
  induction fuel generalizing tables reader parser with
  | zero =>
      intro after left
      cases left
  | succ fuel ih =>
      have step := cfgNext_onText buff inner reader parser same
      rw [parseItems]
      cases reads : cfgNext buff inner reader with
      | ok item next =>
          rw [reads] at step
          obtain ⟨middle, run, -, goes⟩ := step.of_ok
          rw [Prog.bind_run_ok run]
          cases item with
          | none =>
              rw [settingsFrom, reads]
              rintro _ ⟨⟩
              exact goes.tables_eq
          | some item =>
              rw [settingsFrom_item reads]
              obtain rfl := goes.tables_eq
              by_cases listed : Setting.Listed (sectionOf (decide (middle.tables.images ≠ [])) ⟨item.1, item.2⟩)
                  ⟨item.1, item.2⟩ = true
              · obtain ⟨asked, set⟩ := cfgSet_listed proper listed
                rw [if_pos listed, List.foldl_cons, ← take_opened]
                simp only [Prog.bind_run_ok set, if_true]
                exact ih (goes.take asked) (proper.take _)
              · obtain ⟨final, set, kept⟩ := cfgSet_unlisted proper (Bool.eq_false_iff.mpr listed)
                rw [if_neg listed]
                simp only [Prog.bind_run_ok set, Bool.false_eq_true, if_false]
                rintro _ ⟨⟩
                exact kept
      | error code next =>
          rw [reads] at step
          obtain ⟨middle, run, stays⟩ := step.of_error
          rw [Prog.bind_run_error run, settingsFrom, reads]
          rintro _ ⟨⟩
          exact stays.tables_eq
      | fault | undefined | unfinished =>
          rw [reads] at step
          intro after left
          rw [Prog.bind_state?_none (step.of_stopped rfl)] at left
          cases left

theorem settingsFrom_valued (inner fuel : Nat) (inImage : Bool) (same : SameText tables reader parser) :
    ∀ setting ∈ settingsFrom buff inner fuel inImage reader, ∀ value ∈ setting.value, Valued value := by
  induction fuel generalizing inImage reader parser with
  | zero => exact nofun
  | succ fuel ih =>
      have step := cfgNext_onText buff inner reader parser same
      cases reads : cfgNext buff inner reader with
      | ok item next =>
          rw [reads] at step
          obtain ⟨other, -, valued, goes⟩ := step.of_ok
          cases item with
          | none =>
              rw [settingsFrom, reads]
              exact nofun
          | some item =>
              rw [settingsFrom_item reads]
              split
              · exact List.forall_mem_cons.mpr ⟨valued item rfl, ih _ goes⟩
              · exact nofun
      | error | fault | undefined | unfinished =>
          rw [settingsFrom, reads]
          exact nofun

theorem fresh_sameText : SameText ⟨cfOptions, []⟩ .fresh .fresh := ⟨⟨[], rfl⟩, nofun, rfl⟩

theorem settingsOf_valued (buff : List UInt8) (fuel : Nat) :
    ∀ setting ∈ settingsOf buff fuel, ∀ value ∈ setting.value, Valued value :=
  settingsFrom_valued fuel fuel false fresh_sameText

theorem parseRoomy_state? (buff : List UInt8) (fuel : Nat) :
    (parseRoomy buff fuel .fresh).state? = (parseItems buff fuel fuel .fresh).state? := by
  have start : { Parser.fresh with currp := 0 } = Parser.fresh := rfl
  rw [parseRoomy, Prog.update_bind, start]
  cases run : parseItems buff fuel fuel .fresh with
  | ok code after =>
      rw [Prog.bind_run_ok (show Prog.attempt (parseItems buff fuel fuel) .fresh = .ok (.ok code) after by
        rw [Prog.attempt, run])]
      rfl
  | error code after =>
      rw [Prog.bind_run_ok (show Prog.attempt (parseItems buff fuel fuel) .fresh = .ok (.error code) after by
        rw [Prog.attempt, run])]
      rfl
  | fault => rw [Prog.bind_state?_none (show _ = none by rw [Prog.attempt, run]; rfl)]; rfl
  | undefined => rw [Prog.bind_state?_none (show _ = none by rw [Prog.attempt, run]; rfl)]; rfl
  | unfinished => rw [Prog.bind_state?_none (show _ = none by rw [Prog.attempt, run]; rfl)]; rfl

/-- After `cfg_parse` the tables are what the settings of the text come to. -/
theorem cfgParse_tables {grants : Nat → Nat → Bool} {fuel : Nat} {code : Int} {after : Parser}
    (returned : cfgParse grants buff fuel .fresh = .ok code after) :
    after.tables = Tables.ofSettings (settingsOf buff fuel) := by
  rw [cfgParse] at returned
  split at returned
  · have left : (parseItems buff fuel fuel .fresh).state? = some after := by
      rw [← parseRoomy_state?, returned]
      rfl
    exact parseItems_tables fuel fuel fresh_sameText ⟨rfl, List.forall_mem_nil _⟩ after left
  · cases returned

/-- All tables of a parser that has read a text have the entries of the sections, with values that fit. -/
theorem ofSettings_tables (buff : List UInt8) (fuel : Nat) :
    (Tables.ofSettings (settingsOf buff fuel)).Proper ∧ (Tables.ofSettings (settingsOf buff fuel)).Valued := by
  have general (settings : List Setting) (tables : Tables) (proper : tables.Proper) (valued : tables.Valued)
      (fits : ∀ setting ∈ settings, ∀ value ∈ setting.value, Config.Valued value) :
      (settings.foldl Tables.take tables).Proper ∧ (settings.foldl Tables.take tables).Valued := by
    induction settings generalizing tables with
    | nil => exact ⟨proper, valued⟩
    | cons setting settings ih =>
        obtain ⟨first, others⟩ := List.forall_mem_cons.mp fits
        exact ih _ (proper.take setting) (valued.take first) others
  exact general _ _ ⟨rfl, nofun⟩ ⟨cfOptions_valued, nofun⟩ (settingsOf_valued buff fuel)

end IQuik.Config
