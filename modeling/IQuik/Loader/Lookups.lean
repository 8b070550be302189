import IQuik.Config.Sections
import IQuik.Loader.Printing

namespace IQuik.Loader

open IQuik.Data IQuik.Program IQuik.Config

/-! # Lookups after a parse: `cfg_print_images` and its kin -/

/-- `table_print_t`. -/
structure TablePrint where
  maxCol : Nat
  pad : Nat
  count : Nat

def tablePrintStart (cols pad : Nat) : TablePrint where
  maxCol := cols
  pad := pad
  count := 0

/-- `table_print`, and what it prints; `strlen` is not defined on a null pointer. -/
def tablePrint (t : TablePrint) (s : Option Str) : Option (TablePrint × Str) := do
  let s ← s
  let line := if t.count ≠ 0 ∧ t.count % t.maxCol = 0 then [10] else []
  let text ← vprintk (str "%s") [.text (some s)]
  some ({ t with count := t.count + 1 }, line ++ text ++ List.replicate (t.pad - s.length) 32)

def tablePrintEnd (t : TablePrint) : Str := if t.count ≠ 0 then [10] else []

/-- The loop of `cfg_print_images`. -/
def printImages : (images : List Table) → (tp : TablePrint) → Option (TablePrint × Str)
  | [], tp => some (tp, [])
  | image :: images, tp => do
      let label ← imageName image
      let (tp, first) ← tablePrint tp (some label)
      let (tp, second) ← match cfgGetStrgI image (str "alias") with
        | some name => tablePrint tp (some name)
        | none => some (tp, [])
      let (tp, others) ← printImages images tp
      some (tp, first ++ second ++ others)

/-- `cfg_print_images`; `none` when a null pointer is used as a string. -/
def cfgPrintImages (config : Parser) : Option Str := do
  let (tp, text) ← printImages config.images (tablePrintStart 3 25)
  some (text ++ tablePrintEnd tp)

/-- No lookup uses a null pointer as a string, and all images have names. -/
structure Searchable (config : Parser) : Prop where
  strg : ∀ image item, cfgGetStrg config (some image) item ≠ none
  default : cfgGetDefault config ≠ none
  print : cfgPrintImages config ≠ none
  named : ∀ image ∈ config.images, imageName image ≠ none

/-! ## Names of images in a text -/

/-- A label with a value comes before the next image. -/
def Labelled (settings : List Setting) : Prop :=
  ∃ setting ∈ settings.takeWhile (!·.Opens), equalNoCase setting.name (str "label") = true ∧ setting.value ≠ none

instance (settings : List Setting) : Decidable (Labelled settings) :=
  inferInstanceAs (Decidable (∃ setting ∈ settings.takeWhile _, _))

/-- Each `image` has a path, or a label is set in its section. -/
def ImagesNamed : List Setting → Prop
  | [] => True
  | setting :: settings =>
      (setting.Opens = true → setting.value ≠ none ∨ Labelled settings) ∧ ImagesNamed settings

instance decideNamed : (settings : List Setting) → Decidable (ImagesNamed settings)
  | [] => inferInstanceAs (Decidable True)
  | _ :: settings =>
      have := decideNamed settings
      inferInstanceAs (Decidable (_ ∧ _))

variable {table : Table} {setting : Setting} {settings : List Setting} {config : Parser}

theorem imageName_iff (table : Table) :
    imageName table ≠ none ↔ cfgGetStrgI table (str "label") ≠ none ∨ cfgGetStrgI table (str "image") ≠ none := by
  rw [imageName]
  cases cfgGetStrgI table (str "label")
  · simp
  · simp

theorem other_option {first second : Str} (same : equalNoCase setting.name first = true)
    (differ : equalNoCase first second = false) : equalNoCase setting.name second = false := by
  rw [equalNoCase, equalNoCase_iff.mp same]
  exact differ

theorem strg_of_shape {key : Str} (shape : table.map Entry.shape = cfImage.map Entry.shape) (strg : cfImage.Strg key) :
    table.Strg key := by
  rw [Table.Strg, shape]
  exact strg

theorem cfImage_label : cfImage.Strg (str "label") := by
  unfold Table.Strg
  decide

theorem cfImage_image : cfImage.Strg (str "image") := by
  unfold Table.Strg
  decide

/-- An image that was just started has a name if it has a path. -/
theorem named_opened (opens : setting.Opens = true) :
    imageName (cfImage.take setting) ≠ none ↔ setting.value ≠ none := by
  have label : cfgGetStrgI (cfImage.take setting) (str "label") = none := by
    rw [lookup_take_other _ (other_option opens (by decide))]
    decide
  have path : cfgGetStrgI (cfImage.take setting) (str "image") = setting.value := by
    have unset : cfgGetStrgI cfImage (str "image") = none := by decide
    rw [lookup_take_same cfImage_image (opens_listed opens) opens, unset, Option.or_none]
  rw [imageName_iff, label, path]
  simp

/-- Only a label with a value changes whether an image has a name. -/
theorem named_take (shape : table.map Entry.shape = cfImage.map Entry.shape) (opens : setting.Opens = false) :
    imageName (table.take setting) ≠ none ↔
      imageName table ≠ none ∨ equalNoCase setting.name (str "label") = true ∧ setting.value ≠ none := by
  rw [imageName_iff, imageName_iff, lookup_take_other _ opens]
  by_cases label : equalNoCase setting.name (str "label") = true
  · have listed : setting.Listed table = true := by
      rw [listed_shape shape, Setting.Listed, List.any_eq_true]
      refine ⟨strgEntry "label", List.mem_cons_of_mem _ List.mem_cons_self, ?_⟩
      rw [equalNoCase_iff]
      exact (equalNoCase_iff.mp label).symm
    rw [lookup_take_same (strg_of_shape shape cfImage_label) listed label]
    cases setting.value
    · simp
    · simp [label]
  · rw [lookup_take_other _ (Bool.eq_false_iff.mpr label)]
    simp [label]

/-- The images that are complete have names; the last one has a name or gets a label, and so
have all that follow. -/
theorem images_named {options : Table} {done : List Table}
    (shape : table.map Entry.shape = cfImage.map Entry.shape) :
    (∀ image ∈ (settings.foldl Tables.take ⟨options, done ++ [table]⟩).images, imageName image ≠ none) ↔
      (∀ image ∈ done, imageName image ≠ none) ∧ (imageName table ≠ none ∨ Labelled settings) ∧
        ImagesNamed settings := by
  induction settings generalizing done table with
  | nil =>
      rw [List.foldl_nil, List.forall_mem_append, List.forall_mem_singleton]
      simp [Labelled, ImagesNamed]
  | cons setting settings ih =>
      rw [List.foldl_cons, Tables.take, ImagesNamed]
      by_cases opens : setting.Opens = true
      · have none' : ¬Labelled (setting :: settings) := by
          rw [Labelled, List.takeWhile_cons_of_neg (by simp [opens])]
          simp
        rw [if_pos opens]
        simp only
        rw [ih (take_shape _ _), List.forall_mem_append, List.forall_mem_singleton, named_opened opens]
        simp only [none', or_false, opens, forall_const]
        exact and_assoc
      · have plain : setting.Opens = false := Bool.eq_false_iff.mpr opens
        have labels : Labelled (setting :: settings) ↔
            (equalNoCase setting.name (str "label") = true ∧ setting.value ≠ none) ∨ Labelled settings := by
          rw [Labelled, List.takeWhile_cons_of_pos (by simp [plain])]
          simp [Labelled]
        have last : (done ++ [table]).getLast?.getD cfImage = table := by simp
        rw [if_neg opens, if_neg (by simp), last, List.dropLast_concat, ih ((take_shape _ _).trans shape),
          named_take shape plain, labels, or_assoc]
        simp [plain]

/-- Before the first image, only its own section matters. -/
theorem all_named {options : Table} :
    (∀ image ∈ (settings.foldl Tables.take ⟨options, []⟩).images, imageName image ≠ none) ↔ ImagesNamed settings := by
  induction settings generalizing options with
  | nil => simp [ImagesNamed]
  | cons setting settings ih =>
      rw [List.foldl_cons, Tables.take, ImagesNamed]
      by_cases opens : setting.Opens = true
      · rw [if_pos opens, images_named (take_shape _ _), named_opened opens]
        simp [opens]
      · rw [if_neg opens, if_pos rfl, ih]
        simp [opens]

/-! ## Searches -/

theorem findImage_named (name : Str) {images : List Table} (named : ∀ image ∈ images, imageName image ≠ none) :
    findImage name images ≠ none := by
  induction images with
  | nil => exact Option.some_ne_none _
  | cons image images ih =>
      obtain ⟨first, others⟩ := List.forall_mem_cons.mp named
      obtain ⟨label, known⟩ := Option.ne_none_iff_exists'.mp first
      rw [findImage, isCalled, known, Option.map_some]
      simp only [Option.bind_eq_bind, Option.bind_some]
      split
      · exact Option.some_ne_none _
      · exact ih others

theorem tablePrint_some (t : TablePrint) (s : Str) : ∃ printed, tablePrint t (some s) = some printed := ⟨_, rfl⟩

theorem printImages_named {images : List Table} (named : ∀ image ∈ images, imageName image ≠ none) (tp : TablePrint) :
    ∃ printed, printImages images tp = some printed := by
  induction images generalizing tp with
  | nil => exact ⟨_, rfl⟩
  | cons image images ih =>
      obtain ⟨first, others⟩ := List.forall_mem_cons.mp named
      obtain ⟨label, known⟩ := Option.ne_none_iff_exists'.mp first
      obtain ⟨⟨middle, text⟩, prints⟩ := tablePrint_some tp label
      rw [printImages, known]
      simp only [Option.bind_eq_bind, Option.bind_some, prints]
      cases cfgGetStrgI image (str "alias") with
      | none =>
          obtain ⟨⟨last, rest⟩, goes⟩ := ih others middle
          simp only [Option.bind_some, goes]
          exact ⟨_, rfl⟩
      | some name =>
          obtain ⟨⟨behind, more⟩, prints⟩ := tablePrint_some middle name
          obtain ⟨⟨last, rest⟩, goes⟩ := ih others behind
          simp only [Option.bind_some, prints, goes]
          exact ⟨_, rfl⟩

/-- Names are all that the lookups need. -/
theorem searchable_named (named : ∀ image ∈ config.images, imageName image ≠ none) : Searchable config where
  strg image item := by
    obtain ⟨found, finds⟩ := Option.ne_none_iff_exists'.mp (findImage_named image named)
    rw [cfgGetStrg, finds]
    exact Option.some_ne_none _
  default := by
    rw [cfgGetDefault]
    cases cfgGetStrgI config.options (str "default") with
    | some label => exact Option.some_ne_none _
    | none =>
        cases images : config.images with
        | nil => exact Option.some_ne_none _
        | cons image rest =>
            obtain ⟨label, known⟩ := Option.ne_none_iff_exists'.mp (named image (images ▸ List.mem_cons_self))
            simp only [known, Option.map_some]
            exact Option.some_ne_none _
  print := by
    obtain ⟨printed, prints⟩ := printImages_named named (tablePrintStart 3 25)
    rw [cfgPrintImages, prints]
    exact Option.some_ne_none _
  named := named

/-- After a text was parsed, with 0 or with -1, the lookups are safe unless the section of an
image has neither a path nor a label. -/
theorem searchable_iff (grants : Nat → Nat → Bool) (buff : List UInt8) (fuel : Nat) (code : Int) (config : Parser)
    (returned : cfgParse grants buff fuel .fresh = .ok code config) :
    Searchable config ↔ ImagesNamed (settingsOf buff fuel) := by
  have images : config.images = (Tables.ofSettings (settingsOf buff fuel)).images :=
    congrArg Tables.images (cfgParse_tables returned)
  constructor
  · intro searchable
    have named := searchable.named
    rw [images] at named
    exact all_named.mp named
  · intro named
    refine searchable_named ?_
    rw [images]
    exact all_named.mpr named

/-- A label instead of a path. -/
theorem searchable_label : ∃ code config, cfgParse (fun _ _ => true) (str "image label=a") 100 .fresh = .ok code config ∧
    Searchable config := by
  obtain ⟨code, config, returned, -⟩ := cfgParse_granted
    (show 2 * (str "image label=a").length + 1 < 100 by decide)
    (show Granted (fun _ _ => true) (requestsOf (str "image label=a") 100) from fun _ _ => rfl)
  exact ⟨code, config, returned, (searchable_iff _ _ _ _ _ returned).mpr (by decide +kernel)⟩

/-- The line `image`, on its own. -/
theorem not_searchable : ∃ config, cfgParse (fun _ _ => true) (str "image") 100 .fresh = .ok 0 config ∧
    ¬Searchable config := by
  refine ⟨{ Parser.fresh.ask [.token (str "image"), .image] with currp := 5, images := [cfImage] }, rfl, ?_⟩
  intro searchable
  exact searchable.named cfImage List.mem_cons_self (by decide)

end IQuik.Loader
