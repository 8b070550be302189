import IQuik.Config.Items
import IQuik.Config.Total
import Mathlib.Data.List.Forall2

namespace IQuik.Config

open IQuik.Data IQuik.Program

/-! # A configuration is read back from its text -/

/-- The names of all options. -/
def optionNames : List Str := (cfOptions ++ cfImage).map Entry.name

def Setting.type (setting : Setting) : ConfigType :=
  match setting.value with
  | some _ => .strg
  | none => .flag

/-- What a lookup finds: a flag that is set is the empty string. -/
def Setting.shown (setting : Setting) : Str := setting.value.getD []

def Entry.shape (entry : Entry) : ConfigType × Str := (entry.type, entry.name)

/-- The table has an entry of that name and type. -/
def Setting.Known (table : Table) (setting : Setting) : Prop :=
  (setting.type, setting.name) ∈ table.map Entry.shape

instance (table : Table) (setting : Setting) : Decidable (setting.Known table) :=
  inferInstanceAs (Decidable (_ ∈ _))

/-- Distinct settings that a table knows. -/
structure Section (table : Table) where
  settings : List Setting
  known : ∀ setting ∈ settings, setting.Known table
  distinct : (settings.map Setting.name).Nodup
  valued : ∀ setting ∈ settings, ∀ value ∈ setting.value, Valued value

/-- An image section; the first option of `cf_image` is the path. -/
structure Image where
  path : Str
  valid : Valued path
  options : Section cfImage.tail

structure Configuration where
  globals : Section cfOptions
  images : List Image

def Image.settings (image : Image) : List Setting := ⟨str "image", some image.path⟩ :: image.options.settings

def Configuration.settings (config : Configuration) : List Setting :=
  config.globals.settings ++ config.images.flatMap Image.settings

def Configuration.text (config : Configuration) : Str := printAll config.settings

/-- The value of an option in a list of settings. -/
def valueOf (settings : List Setting) (option : Str) : Option Str :=
  (settings.find? fun setting => setting.name = option).map Setting.shown

/-- The last part of a path. -/
def baseName (path : Str) : Str := (path.reverse.takeWhile (· ≠ 47)).reverse

def Image.label (image : Image) : Str := (valueOf image.settings (str "label")).getD (baseName image.path)

def Image.Called (name : Str) (image : Image) : Bool :=
  image.label == name || valueOf image.settings (str "alias") == some name

def Configuration.global (config : Configuration) (option : Str) : Option Str :=
  valueOf config.globals.settings option

/-- The value of an option for the first image of that name, or else the global one. -/
def Configuration.value (config : Configuration) (name option : Str) : Option Str :=
  (config.images.find? (Image.Called name)).bind fun image =>
    (valueOf image.settings option).or (config.global option)

/-- All lookups find what the configuration has. -/
structure Configuration.Restored (config : Configuration) (parser : Parser) : Prop where
  globals : ∀ option ∈ optionNames, cfgGetStrg parser none option = some (config.global option)
  images : ∀ name, ∀ option ∈ optionNames, cfgGetStrg parser (some name) option = some (config.value name option)
  globalFlags : ∀ option ∈ optionNames, cfgGetFlag parser none option = some (config.global option).isSome
  imageFlags : ∀ name, ∀ option ∈ optionNames,
    cfgGetFlag parser (some name) option = some (config.value name option).isSome

/-- The round trip: the text is accepted, and the lookups find the configuration. -/
def RoundTrips (grants : Nat → Nat → Bool) (config : Configuration) (fuel : Nat) : Prop :=
  ∃ after, cfgParse grants config.text fuel .fresh = .ok 0 after ∧ config.Restored after

/-- No value is an equals sign. -/
def Configuration.Ordinary (config : Configuration) : Prop :=
  ∀ setting ∈ config.settings, setting.value ≠ some (str "=")

instance (config : Configuration) : Decidable config.Ordinary :=
  inferInstanceAs (Decidable (∀ setting ∈ config.settings, _))

/-- What a setting asks of `malloc`: its strings, and then the table of an image. -/
def Setting.requests (setting : Setting) : List Request :=
  setting.tokens ++ if equalNoCase setting.name (str "image") then [.image] else []

def Configuration.requests (config : Configuration) : List Request := config.settings.flatMap Setting.requests

/-! ## Tables -/

/-- The names of a table are names of options, and distinct. -/
structure Regular (table : Table) : Prop where
  options : ∀ name ∈ table.map Entry.name, name ∈ optionNames
  distinct : (table.map Entry.name).Nodup

theorem cfOptions_regular : Regular cfOptions where
  options _ member := List.map_subset _ (List.subset_append_left ..) member
  distinct := by decide

theorem cfImage_regular : Regular cfImage where
  options _ member := List.map_subset _ (List.subset_append_right ..) member
  distinct := by decide

theorem cfOptions_unset : ∀ entry ∈ cfOptions, entry.data = none := by simp [cfOptions, strgEntry, flagEntry]

theorem cfImage_unset : ∀ entry ∈ cfImage, entry.data = none := by simp [cfImage, strgEntry, flagEntry]

/-- The names that an image is looked up by. -/
theorem label_names : str "image" ∈ optionNames ∧ str "label" ∈ optionNames ∧ str "alias" ∈ optionNames :=
  ⟨cfImage_regular.options _ List.mem_cons_self,
    cfImage_regular.options _ (List.mem_cons_of_mem _ List.mem_cons_self),
    cfImage_regular.options _ (List.mem_cons_of_mem _ (List.mem_cons_of_mem _ List.mem_cons_self))⟩

/-- No other option opens the section of an image, and this one has a value. -/
theorem opens_image : (∀ name ∈ cfOptions.map Entry.name ++ cfImage.tail.map Entry.name,
      equalNoCase name (str "image") = false) ∧
    ∀ shape ∈ (cfOptions ++ cfImage).map Entry.shape,
      equalNoCase shape.2 (str "image") = true → shape.1 = .strg := by decide

theorem map_name (table : Table) : table.map Entry.name = (table.map Entry.shape).map Prod.snd := by
  rw [List.map_map]
  rfl

theorem Regular.of_shape {first second : Table} (regular : Regular first)
    (same : second.map Entry.shape = first.map Entry.shape) : Regular second := by
  have names : second.map Entry.name = first.map Entry.name := by rw [map_name, map_name, same]
  exact ⟨names ▸ regular.options, names ▸ regular.distinct⟩

/-- The names of options are in lower case, and can be written as they are. -/
theorem option_names : ∀ name ∈ optionNames, name.map tolower = name ∧ name ≠ [] ∧
    name.all (fun c => decide (PlainByte c)) = true ∧ name.length < maxToken := by decide

/-- The names of options are in lower case, so that they are compared as they are. -/
theorem equalNoCase_options {first second : Str} (one : first ∈ optionNames) (two : second ∈ optionNames) :
    equalNoCase first second = decide (first = second) := by
  rw [equalNoCase, (option_names first one).1, (option_names second two).1, beq_eq_decide]

theorem cfgGetStrgI_cons (entry : Entry) (table : Table) (option : Str) :
    cfgGetStrgI (entry :: table) option =
      if equalNoCase entry.name option then entry.data else cfgGetStrgI table option := by
  rw [cfgGetStrgI, List.find?_cons]
  cases equalNoCase entry.name option
  · rfl
  · rfl

variable {table : Table} {setting : Setting} {settings : List Setting}

theorem Setting.Known.mem_names (known : setting.Known table) : setting.name ∈ table.map Entry.name := by
  rw [map_name]
  exact List.mem_map_of_mem known

theorem Setting.Known.head_or_tail {entry : Entry} (known : setting.Known (entry :: table)) :
    (entry.type = setting.type ∧ entry.name = setting.name) ∨ setting.Known table := by
  unfold Setting.Known at known
  rw [List.map_cons] at known
  obtain here | there := List.mem_cons.mp known
  · exact .inl ⟨(congrArg Prod.fst here).symm, (congrArg Prod.snd here).symm⟩
  · exact .inr there

/-- An entry of the setting's type takes its value. -/
theorem Entry.set_shown {entry : Entry} (type : entry.type = setting.type) :
    entry.set setting.value = { entry with data := some setting.shown } := by
  obtain ⟨kind, name, data⟩ := entry
  obtain rfl : kind = setting.type := type
  obtain ⟨item, value⟩ := setting
  cases value with
  | none => rfl
  | some value => rfl

/-- A setting that is known is stored under its name, and nothing else changes. -/
theorem set_known (regular : Regular table) (known : setting.Known table) :
    ∃ final, Table.set setting.name setting.value table = some final ∧
      final.map Entry.shape = table.map Entry.shape ∧
      ∀ option ∈ optionNames, cfgGetStrgI final option =
        if setting.name = option then some setting.shown else cfgGetStrgI table option := by
  have isOption : setting.name ∈ optionNames := regular.options _ known.mem_names
  induction table with
  | nil => exact absurd known List.not_mem_nil
  | cons entry table ih =>
      have first : entry.name ∈ optionNames := regular.options _ (List.mem_map_of_mem List.mem_cons_self)
      have distinct := List.nodup_cons.mp (List.map_cons ▸ regular.distinct)
      unfold Table.set
      rw [equalNoCase_options first isOption]
      by_cases same : entry.name = setting.name
      · have type : entry.type = setting.type := by
          obtain here | there := known.head_or_tail
          · exact here.1
          · exact absurd (same ▸ there.mem_names) distinct.1
        rw [Entry.set_shown type, decide_eq_true same, if_pos rfl]
        refine ⟨_, rfl, rfl, fun option member => ?_⟩
        rw [cfgGetStrgI_cons, cfgGetStrgI_cons, equalNoCase_options first member, same]
        by_cases asked : setting.name = option
        · rw [decide_eq_true asked, if_pos rfl, if_pos asked]
        · rw [decide_eq_false asked, if_neg Bool.false_ne_true, if_neg Bool.false_ne_true, if_neg asked]
      · have later : setting.Known table := by
          obtain here | there := known.head_or_tail
          · exact absurd here.2 same
          · exact there
        obtain ⟨final, set, shape, found⟩ := ih ⟨fun name member => regular.options name
          (List.mem_cons_of_mem _ member), distinct.2⟩ later
        rw [decide_eq_false same, if_neg Bool.false_ne_true, set, Option.map_some]
        refine ⟨_, rfl, by rw [List.map_cons, List.map_cons, shape], fun option member => ?_⟩
        rw [cfgGetStrgI_cons, cfgGetStrgI_cons, equalNoCase_options first member, found option member]
        by_cases asked : entry.name = option
        · rw [decide_eq_true asked, if_pos rfl, if_pos rfl, if_neg fun other => same (asked.trans other.symm)]
        · rw [decide_eq_false asked, if_neg Bool.false_ne_true, if_neg Bool.false_ne_true]

def Table.setAll (table : Table) (settings : List Setting) : Option Table :=
  settings.foldlM (fun table setting => Table.set setting.name setting.value table) table

theorem setAll_cons (table : Table) (setting : Setting) (settings : List Setting) :
    table.setAll (setting :: settings) =
      (Table.set setting.name setting.value table).bind fun middle => middle.setAll settings := rfl

theorem valueOf_cons (setting : Setting) (settings : List Setting) (option : Str) :
    valueOf (setting :: settings) option =
      if setting.name = option then some setting.shown else valueOf settings option := by
  rw [valueOf, List.find?_cons]
  by_cases same : setting.name = option
  · rw [decide_eq_true same, if_pos same]
    rfl
  · rw [decide_eq_false same, if_neg same]
    rfl

theorem valueOf_none {option : Str} (absent : option ∉ settings.map Setting.name) : valueOf settings option = none := by
  have nowhere : settings.find? (fun setting => setting.name = option) = none := by
    rw [List.find?_eq_none]
    intro setting member same
    exact absent (List.mem_map.mpr ⟨setting, member, of_decide_eq_true same⟩)
  rw [valueOf, nowhere]
  rfl

/-- Distinct settings that are known are all found, and the others as before. -/
theorem setAll_known (regular : Regular table) (known : ∀ setting ∈ settings, setting.Known table)
    (distinct : (settings.map Setting.name).Nodup) :
    ∃ final, table.setAll settings = some final ∧
      ∀ option ∈ optionNames, cfgGetStrgI final option = (valueOf settings option).or (cfgGetStrgI table option) := by
  induction settings generalizing table with
  | nil => exact ⟨table, rfl, fun option member => rfl⟩
  | cons setting settings ih =>
      obtain ⟨absent, distinct⟩ := List.nodup_cons.mp (List.map_cons ▸ distinct)
      obtain ⟨middle, set, shape, found⟩ := set_known regular (known setting List.mem_cons_self)
      have knows : ∀ other ∈ settings, other.Known middle := by
        intro other member
        unfold Setting.Known
        rw [shape]
        exact known other (List.mem_cons_of_mem _ member)
      obtain ⟨final, sets, finds⟩ := ih (regular.of_shape shape) knows distinct
      refine ⟨final, ?_, fun option member => ?_⟩
      · rw [Table.setAll, List.foldlM_cons, set]
        exact sets
      · rw [finds option member, found option member, valueOf_cons]
        by_cases same : setting.name = option
        · subst same
          rw [if_pos rfl, if_pos rfl, valueOf_none absent]
          rfl
        · rw [if_neg same, if_neg same]

/-! ## The parser's tables -/

variable {parser : Parser}

theorem currTable_setTable (parser : Parser) (table : Table) : (parser.setTable table).currTable = table := by
  unfold Parser.setTable
  split
  · rename_i empty
    simp [Parser.currTable, empty]
  · simp [Parser.currTable]

theorem setTable_setTable (parser : Parser) (first second : Table) :
    (parser.setTable first).setTable second = parser.setTable second := by
  unfold Parser.setTable
  by_cases empty : parser.images = []
  · simp only [if_pos empty]
  · simp [if_neg empty]

theorem setTable_currTable (parser : Parser) : parser.setTable parser.currTable = parser := by
  unfold Parser.setTable Parser.currTable
  by_cases empty : parser.images = []
  · have options : parser.images.getLast?.getD parser.options = parser.options := by
      rw [empty]
      rfl
    rw [if_pos empty, options]
  · rw [if_neg empty, List.getLast?_eq_some_getLast empty, Option.getD_some, List.dropLast_append_getLast]

theorem setTable_ask (parser : Parser) (table : Table) (asked : List Request) :
    (parser.setTable table).ask asked = (parser.ask asked).setTable table := by
  unfold Parser.setTable Parser.ask
  split
  · rfl
  · rfl

/-- An option goes to the current table. -/
theorem take_option (option : equalNoCase setting.name (str "image") = false)
    (set : Table.set setting.name setting.value parser.currTable = some table) :
    parser.take setting = some ((parser.ask setting.requests).setTable table) := by
  have same : (parser.ask setting.tokens).opened setting.name = parser.ask setting.tokens := by
    rw [Parser.opened, option]
    rfl
  have current : (parser.ask setting.tokens).currTable = parser.currTable := rfl
  rw [Parser.take, same, Parser.put, current, set, Option.map_some, Setting.requests, option,
    if_neg Bool.false_ne_true, List.append_nil]

theorem takeAll_options (options : ∀ setting ∈ settings, equalNoCase setting.name (str "image") = false)
    (sets : parser.currTable.setAll settings = some table) :
    parser.takeAll settings = some ((parser.ask (settings.flatMap Setting.requests)).setTable table) := by
  induction settings generalizing parser with
  | nil =>
      obtain rfl := Option.some.inj sets
      have same : parser.ask [] = parser := by rw [Parser.ask, List.append_nil]
      rw [List.flatMap_nil, same, setTable_currTable]
      rfl
  | cons setting settings ih =>
      obtain ⟨middle, set, rest⟩ := Option.bind_eq_some_iff.mp ((setAll_cons _ _ _).symm.trans sets)
      have first := take_option (options setting List.mem_cons_self) set
      have goes : ((parser.ask setting.requests).setTable middle).currTable.setAll settings = some table := by
        rw [currTable_setTable]
        exact rest
      rw [Parser.takeAll, List.foldlM_cons, first]
      refine (ih (fun other member => options other (List.mem_cons_of_mem _ member)) goes).trans ?_
      rw [setTable_ask, setTable_setTable, ask_ask, List.flatMap_cons]

/-- An image opens a table of its own, at the end. -/
theorem take_image (image : equalNoCase setting.name (str "image") = true)
    (set : Table.set setting.name setting.value cfImage = some table) :
    parser.take setting = some { parser.ask setting.requests with images := parser.images ++ [table] } := by
  have current : ((parser.ask setting.tokens).opened setting.name).currTable = cfImage := by
    simp [Parser.opened, image, Parser.currTable]
  rw [Parser.take, Parser.put, current, set, Option.map_some]
  simp [Parser.opened, image, Parser.setTable, Parser.ask, Setting.requests]

/-! ## Configurations -/

theorem Section.options (section' : Section table) (others : ∀ name ∈ table.map Entry.name,
    equalNoCase name (str "image") = false) :
    ∀ setting ∈ section'.settings, equalNoCase setting.name (str "image") = false :=
  fun setting member => others _ (section'.known setting member).mem_names

variable {image : Image} {images : List Image} {config : Configuration}

theorem Image.known (image : Image) : ∀ setting ∈ image.settings, setting.Known cfImage := by
  intro setting member
  obtain rfl | later := List.mem_cons.mp member
  · exact List.mem_cons_self
  · exact List.mem_cons_of_mem _ (image.options.known setting later)

theorem Image.distinct (image : Image) : (image.settings.map Setting.name).Nodup := by
  refine List.nodup_cons.mpr ⟨fun member => ?_, image.options.distinct⟩
  obtain ⟨setting, member, same⟩ := List.mem_map.mp member
  have other : str "image" ∉ cfImage.tail.map Entry.name := (List.nodup_cons.mp cfImage_regular.distinct).1
  have name : setting.name = str "image" := same
  exact other (name ▸ (image.options.known setting member).mem_names)

/-- The table has the values of the image. -/
def Holds (image : Image) (table : Table) : Prop :=
  ∀ option ∈ optionNames, cfgGetStrgI table option = valueOf image.settings option

theorem lookup_unset (unset : ∀ entry ∈ table, entry.data = none) (option : Str) : cfgGetStrgI table option = none := by
  rw [cfgGetStrgI]
  cases found : table.find? fun entry => equalNoCase entry.name option with
  | none => rfl
  | some entry => exact unset entry (List.mem_of_find?_eq_some found)

/-- The section of an image makes one table more. -/
theorem takeAll_image (parser : Parser) (image : Image) :
    ∃ table, Holds image table ∧ parser.takeAll image.settings =
      some { parser.ask (image.settings.flatMap Setting.requests) with images := parser.images ++ [table] } := by
  obtain ⟨table, sets, found⟩ := setAll_known cfImage_regular image.known image.distinct
  refine ⟨table, fun option member => ?_, ?_⟩
  · rw [found option member, lookup_unset cfImage_unset, Option.or_none]
  · rw [Image.settings, setAll_cons] at sets
    obtain ⟨first, set, rest⟩ := Option.bind_eq_some_iff.mp sets
    have opened : parser.take ⟨str "image", some image.path⟩ = _ := take_image rfl set
    have current (before : Parser) : Parser.currTable { before with images := parser.images ++ [first] } = first := by
      simp [Parser.currTable]
    have others : ∀ setting ∈ image.options.settings, equalNoCase setting.name (str "image") = false :=
      image.options.options fun name inside => opens_image.1 name (List.mem_append_right _ inside)
    rw [Image.settings, Parser.takeAll, List.foldlM_cons, opened]
    refine (takeAll_options others ((congrArg (Table.setAll · _) (current _)).trans rest)).trans ?_
    simp [Parser.setTable, Parser.ask]

theorem takeAll_append (parser : Parser) (first second : List Setting) :
    parser.takeAll (first ++ second) = (parser.takeAll first).bind fun middle => middle.takeAll second :=
  List.foldlM_append

theorem takeAll_images (parser : Parser) (images : List Image) :
    ∃ tables, List.Forall₂ Holds images tables ∧ parser.takeAll (images.flatMap Image.settings) =
      some { parser.ask ((images.flatMap Image.settings).flatMap Setting.requests) with
        images := parser.images ++ tables } := by
  induction images generalizing parser with
  | nil => exact ⟨[], .nil, by simp [Parser.takeAll, Parser.ask]⟩
  | cons image images ih =>
      obtain ⟨table, holds, first⟩ := takeAll_image parser image
      obtain ⟨tables, all, rest⟩ := ih { parser.ask (image.settings.flatMap Setting.requests) with
        images := parser.images ++ [table] }
      refine ⟨table :: tables, .cons holds all, ?_⟩
      rw [List.flatMap_cons, takeAll_append, first, Option.bind_some, rest]
      simp [Parser.ask]

/-- All settings are taken: the global ones in the table of the options, and those of an
image in its table. -/
theorem takeAll_config (config : Configuration) :
    ∃ final, Parser.fresh.takeAll config.settings = some final ∧ final.requests = config.requests ∧
      (∀ option ∈ optionNames, cfgGetStrgI final.options option = config.global option) ∧
      List.Forall₂ Holds config.images final.images := by
  obtain ⟨table, sets, found⟩ := setAll_known cfOptions_regular config.globals.known config.globals.distinct
  have globals := takeAll_options
    (config.globals.options fun name inside => opens_image.1 name (List.mem_append_left _ inside))
    (show Parser.fresh.currTable.setAll config.globals.settings = some table from sets)
  obtain ⟨tables, holds, images⟩ := takeAll_images
    ((Parser.fresh.ask (config.globals.settings.flatMap Setting.requests)).setTable table) config.images
  have takes := takeAll_append .fresh config.globals.settings (config.images.flatMap Image.settings)
  rw [globals, Option.bind_some, images] at takes
  refine ⟨_, takes, ?_, fun option member => ?_, holds⟩
  · rw [Configuration.requests, Configuration.settings, List.flatMap_append]
    rfl
  · refine (found option member).trans ?_
    rw [lookup_unset cfOptions_unset, Option.or_none]
    rfl

/-! ## Lookups -/

theorem valueOf_path (image : Image) : valueOf image.settings (str "image") = some image.path := by
  rw [Image.settings, valueOf_cons, if_pos rfl]
  rfl

theorem afterLastSlash_getD (path : Str) : (afterLastSlash path).getD path = baseName path := by
  unfold afterLastSlash baseName
  split
  · rfl
  · rename_i noSlash
    have all : path.reverse.takeWhile (· ≠ 47) = path.reverse := by
      refine List.takeWhile_eq_self_iff.mpr fun c member => decide_eq_true ?_
      rintro rfl
      exact noSlash (List.contains_iff_mem.mpr (List.mem_reverse.mp member))
    rw [all, List.reverse_reverse]
    rfl

theorem imageName_holds (holds : Holds image table) : imageName table = some image.label := by
  obtain ⟨image', label', -⟩ := label_names
  have label := holds (str "label") label'
  have path := holds (str "image") image'
  rw [imageName, label, path, valueOf_path, Image.label]
  cases valueOf image.settings (str "label") with
  | none => exact congrArg some (afterLastSlash_getD image.path)
  | some label => rfl

theorem isCalled_holds (holds : Holds image table) (name : Str) : isCalled table name = some (image.Called name) := by
  rw [isCalled, imageName_holds holds, holds (str "alias") label_names.2.2]
  rfl

theorem findImage_holds {tables : List Table} (holds : List.Forall₂ Holds images tables) (name : Str) :
    ∃ found, findImage name tables = some found ∧ Option.Rel Holds (images.find? (Image.Called name)) found := by
  induction holds with
  | nil => exact ⟨none, rfl, .none⟩
  | @cons image table images tables first _ ih =>
      rw [findImage, isCalled_holds first name, List.find?_cons]
      cases image.Called name with
      | true => exact ⟨some table, rfl, .some first⟩
      | false => exact ih

/-- Tables that have the values are looked up like the configuration. -/
theorem restored {parser : Parser} (globals : ∀ option ∈ optionNames,
    cfgGetStrgI parser.options option = config.global option)
    (images : List.Forall₂ Holds config.images parser.images) : config.Restored parser := by
  have global (option : Str) (member : option ∈ optionNames) :
      cfgGetStrg parser none option = some (config.global option) := congrArg some (globals option member)
  have value (name option : Str) (member : option ∈ optionNames) :
      cfgGetStrg parser (some name) option = some (config.value name option) := by
    obtain ⟨found, run, same⟩ := findImage_holds images name
    have lookup : cfgGetStrg parser (some name) option = some (found.bind fun table =>
        (cfgGetStrgI table option).or (cfgGetStrgI parser.options option)) := by
      rw [cfgGetStrg, run]
      rfl
    rw [lookup, Configuration.value, globals option member]
    generalize config.images.find? (Image.Called name) = image at same
    cases same with
    | none => rfl
    | some holds =>
        rw [Option.bind_some, Option.bind_some, holds option member]
  exact {
    globals := global
    images := value
    globalFlags := fun option member => congrArg (Option.map Option.isSome) (global option member)
    imageFlags := fun name option member => congrArg (Option.map Option.isSome) (value name option member) }

/-! ## The text is parsed -/

/-- A setting of a table of options can be written. -/
theorem Setting.Known.writable (known : setting.Known (cfOptions ++ cfImage))
    (valued : ∀ value ∈ setting.value, Valued value) : setting.Writable := by
  obtain ⟨-, some', plain, short⟩ := option_names setting.name known.mem_names
  refine ⟨some', fun c member => of_decide_eq_true (List.all_eq_true.mp plain c member), short, valued,
    fun image nothing => ?_⟩
  have strg : setting.type = .strg := opens_image.2 _ known image
  rw [Setting.type, nothing] at strg
  cases strg

theorem Configuration.writable (config : Configuration) : ∀ setting ∈ config.settings, setting.Writable := by
  intro setting member
  have both {table : Table} (known : setting.Known table) (within : ∀ shape ∈ table.map Entry.shape,
      shape ∈ (cfOptions ++ cfImage).map Entry.shape) : setting.Known (cfOptions ++ cfImage) := within _ known
  obtain global | inImage := List.mem_append.mp member
  · exact (both (config.globals.known setting global) fun _ inside =>
      List.map_subset _ (List.subset_append_left ..) inside).writable (config.globals.valued setting global)
  · obtain ⟨image, -, member⟩ := List.mem_flatMap.mp inImage
    refine (both (image.known setting member) fun _ inside =>
      List.map_subset _ (List.subset_append_right ..) inside).writable fun value same => ?_
    obtain rfl | later := List.mem_cons.mp member
    · exact Option.some.inj same ▸ image.valid
    · exact image.options.valued setting later value same

theorem printAll_length (settings : List Setting) : settings.length ≤ (printAll settings).length := by
  induction settings with
  | nil => exact Nat.zero_le _
  | cons setting settings ih =>
      obtain ⟨stop, more, behind, -⟩ := setting.behind_cons
      rw [printAll_cons, behind, List.length_append, List.length_append, List.length_cons, List.length_cons]
      omega

variable {grants : Nat → Nat → Bool} {fuel : Nat}

/-- The parser at the start of the text. -/
theorem upcoming_fresh (settings : List Setting) : Upcoming (printAll settings) .fresh .fresh settings :=
  .apart noBlank ⟨rfl, Nat.zero_le _, .inl ⟨rfl, rfl⟩⟩

theorem fresh_between : Parser.fresh.Between := ⟨rfl, rfl⟩

theorem parseRoomy_fresh (buff : List UInt8) : parseRoomy buff fuel .fresh =
    (Prog.attempt (parseItems buff fuel fuel) >>= fun result =>
      match result with
      | .ok code => pure code
      | .error _ => pure (-1)) .fresh := rfl

/-- The tables have the values of the configuration. -/
structure Configuration.Stored (config : Configuration) (parser : Parser) : Prop where
  globals : ∀ option ∈ optionNames, cfgGetStrgI parser.options option = config.global option
  images : List.Forall₂ Holds config.images parser.images

theorem Configuration.Stored.restored {parser : Parser} (stored : config.Stored parser) : config.Restored parser :=
  IQuik.Config.restored stored.globals stored.images

/-- Without an equals sign for a value, the text is parsed to its end. -/
theorem parseRoomy_stored (ordinary : config.Ordinary) (enough : 2 * config.text.length + 1 < fuel) :
    ∃ after, parseRoomy config.text fuel .fresh = .ok 0 after ∧ after.requests = config.requests ∧
      config.Stored after := by
  obtain ⟨final, takes, requests, globals, images⟩ := takeAll_config config
  have length : config.settings.length ≤ config.text.length := printAll_length config.settings
  obtain ⟨after, run, ended⟩ := parseItems_done fresh_between config.writable ordinary takes
    (show config.text.length + 1 < fuel by omega) (show config.settings.length < fuel by omega)
    (upcoming_fresh config.settings)
  refine ⟨after, ?_, by rw [ended.same]; exact requests, ?_, ?_⟩
  · have attempt : Prog.attempt (parseItems config.text fuel fuel) .fresh = .ok (.ok 0) after := by
      rw [Prog.attempt, show parseItems config.text fuel fuel .fresh = .ok 0 after from run]
    rw [parseRoomy_fresh, Prog.bind_run_ok attempt]
    rfl
  · rw [ended.same]
    exact globals
  · rw [ended.same]
    exact images

theorem parseRoomy_ordinary (ordinary : config.Ordinary) (enough : 2 * config.text.length + 1 < fuel) :
    ∃ after, parseRoomy config.text fuel .fresh = .ok 0 after ∧ after.requests = config.requests ∧
      config.Restored after := by
  obtain ⟨after, run, requests, stored⟩ := parseRoomy_stored ordinary enough
  exact ⟨after, run, requests, stored.restored⟩

/-- An equals sign for a value is taken for one that is missing. -/
theorem parseRoomy_equals (equals : ¬config.Ordinary) (enough : 2 * config.text.length + 1 < fuel) :
    ∃ after, parseRoomy config.text fuel .fresh = .ok (-1) after := by
  obtain ⟨final, takes, -⟩ := takeAll_config config
  have length : config.settings.length ≤ config.text.length := printAll_length config.settings
  have somewhere : ∃ setting ∈ config.settings, setting.value = some (str "=") := by
    simpa [Configuration.Ordinary] using equals
  obtain ⟨code, after, run⟩ := parseItems_equals fresh_between config.writable somewhere takes
    (show config.text.length + 1 < fuel by omega) (show config.settings.length < fuel by omega)
    (upcoming_fresh config.settings)
  have attempt : Prog.attempt (parseItems config.text fuel fuel) .fresh = .ok (.error code) after := by
    rw [Prog.attempt, show parseItems config.text fuel fuel .fresh = .error code after from run]
  exact ⟨after, by rw [parseRoomy_fresh, Prog.bind_run_ok attempt]; rfl⟩

theorem ordinary_of_roundTrips (enough : 2 * config.text.length + 1 < fuel)
    (trips : RoundTrips grants config fuel) : config.Ordinary := by
  obtain ⟨after, returned, -⟩ := trips
  by_contra equals
  obtain ⟨final, run⟩ := parseRoomy_equals equals enough
  rw [cfgParse, run] at returned
  split at returned
  · cases returned
  · cases returned

/-- A configuration is read back, unless a value is an equals sign or a string or a table
gets no memory. -/
theorem roundTrips_iff (grants : Nat → Nat → Bool) (config : Configuration) (fuel : Nat)
    (enough : 2 * config.text.length + 1 < fuel) :
    RoundTrips grants config fuel ↔ config.Ordinary ∧ Granted grants config.requests := by
  constructor
  · intro trips
    have ordinary := ordinary_of_roundTrips enough trips
    obtain ⟨final, run, requests, -⟩ := parseRoomy_ordinary ordinary enough
    obtain ⟨after, returned, -⟩ := trips
    refine ⟨ordinary, by_contra fun refused => ?_⟩
    have all : ¬∀ after ∈ (parseRoomy config.text fuel .fresh).state?, Granted grants after.requests := by
      rw [run]
      intro granted
      exact refused (requests ▸ granted final rfl)
    rw [cfgParse, if_neg all] at returned
    cases returned
  · rintro ⟨ordinary, granted⟩
    obtain ⟨final, run, requests, restored⟩ := parseRoomy_ordinary ordinary enough
    have all : ∀ after ∈ (parseRoomy config.text fuel .fresh).state?, Granted grants after.requests := by
      rw [run]
      rintro after ⟨⟩
      exact requests ▸ granted
    exact ⟨final, by rw [cfgParse, if_pos all, run], restored⟩

/-- A global option, two images of which one has a label, and a value with a quote, a
backslash and the end of a line. -/
def sampleConfig : Configuration where
  globals := ⟨[⟨str "timeout", some (str "50")⟩, ⟨str "read-only", none⟩], by decide +kernel, by decide +kernel,
    by decide +kernel⟩
  images := [⟨str "/boot/Linux", by decide +kernel, ⟨[⟨str "append", some (str "a\"\\\n")⟩],
      by decide +kernel, by decide +kernel, by decide +kernel⟩⟩,
    ⟨str "/old", by decide +kernel, ⟨[⟨str "label", some (str "x")⟩, ⟨str "old-kernel", none⟩],
      by decide +kernel, by decide +kernel, by decide +kernel⟩⟩]

theorem roundTrips_sample : RoundTrips (fun _ _ => true) sampleConfig 300 :=
  (roundTrips_iff _ _ _ (by decide +kernel)).mpr ⟨by decide +kernel, fun _ _ => rfl⟩

/-- The line `device="="`. -/
def equalsConfig : Configuration where
  globals := ⟨[⟨str "device", some (str "=")⟩], by decide +kernel, by decide +kernel, by decide +kernel⟩
  images := []

theorem equals_lost : ¬RoundTrips (fun _ _ => true) equalsConfig 30 := by
  intro trips
  have ordinary : equalsConfig.Ordinary := ordinary_of_roundTrips (by decide +kernel) trips
  exact ordinary ⟨str "device", some (str "=")⟩ List.mem_cons_self rfl

end IQuik.Config
