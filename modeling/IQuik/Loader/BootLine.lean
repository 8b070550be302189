import IQuik.Loader.Parameters
import Mathlib.Data.List.DropRight

namespace IQuik.Loader

open IQuik.Data IQuik.Program IQuik.Config

/-! # The grammar of the boot line -/

/-- The first word of a line, empty for a line of spaces, and what follows it
with leading spaces skipped. -/
def firstWord (line : Str) : Str := (chomp line).takeWhile (· ≠ 32)

def afterWord (line : Str) : Str := chomp ((chomp line).dropWhile (· ≠ 32))

/-- What the documentation says of the words behind a kernel: the initrd, if
there is one, and the parameters. -/
def Behind (rest : Str) (initrd : Option Str) (params : Str) : Prop :=
  if rest.take 3 = str "-- " then initrd = none ∧ params = rest.drop 3
  else initrd = (if firstWord rest = [] then none else some (firstWord rest)) ∧
    params = afterWord rest

/-- `get_params` returns what the line says. -/
def FollowsLine (line : Str) (run : Outcome QuikErr BootInfo BootParams) : Prop :=
  ∃ result after, run = .ok result after ∧ result.kernel = firstWord line ∧
    Behind (afterWord line) result.initrd result.params

theorem wordSplit_eq (line : Str) :
    wordSplit (some line) =
      (if firstWord line = [] then none else some (firstWord line), afterWord line) := by
  cases text : chomp line with
  | nil =>
      simp only [wordSplit, firstWord, afterWord, text]
      rfl
  | cons c rest =>
      have notSpace : c ≠ 32 := by
        have head := List.head?_dropWhile_not (fun c : UInt8 => decide (c = 32)) line
        rw [show line.dropWhile (fun c : UInt8 => decide (c = 32)) = c :: rest from text] at head
        simpa using head
      simp [wordSplit, firstWord, afterWord, text, notSpace]

theorem chomp_chomp (line : Str) : chomp (chomp line) = chomp line := by
  rw [chomp, chomp, List.dropWhile_idempotent]

/-- The words of a line are separated already when it reaches the end of
`get_params`. -/
theorem chomp_afterWord (line : Str) : chomp (afterWord line) = afterWord line := chomp_chomp _

/-! ## Lookups of a word that is no label -/

/-- Every image has a name, by its label or its path. -/
def Named (config : Parser) : Prop := ∀ image ∈ config.images, (imageName image).isSome

instance (config : Parser) : Decidable (Named config) :=
  inferInstanceAs (Decidable (∀ image ∈ config.images, _))

/-- No image is known under the name `word`. -/
def NoLabel (config : Parser) (word : Str) : Prop :=
  ∀ image ∈ config.images, isCalled image word ≠ some true

instance (config : Parser) (word : Str) : Decidable (NoLabel config word) :=
  inferInstanceAs (Decidable (∀ image ∈ config.images, _))

theorem isCalled_isSome (image : Table) (word : Str) :
    (isCalled image word).isSome = (imageName image).isSome := Option.isSome_map

/-- A word that names no image is looked up in vain, or misses a path. -/
theorem findImage_noLabel {word : Str} {images : List Table}
    (other : ∀ image ∈ images, isCalled image word ≠ some true) :
    findImage word images =
      if ∀ image ∈ images, (imageName image).isSome then some none else none := by
  induction images with
  | nil => rfl
  | cons image rest ih =>
      have tail := ih fun image member => other image (List.mem_cons_of_mem _ member)
      simp only [List.forall_mem_cons]
      cases called : isCalled image word with
      | none =>
          have unnamed : ¬(imageName image).isSome := by
            rw [← isCalled_isSome image word, called]
            exact Bool.false_ne_true
          rw [findImage, called, if_neg fun all => unnamed all.1]
          rfl
      | some answer =>
          have named : (imageName image).isSome = true := by
            rw [← isCalled_isSome image word, called]
            rfl
          have no : answer = false := by
            cases answer with
            | false => rfl
            | true => exact absurd called (other image (List.mem_cons_self ..))
          subst no
          rw [findImage, called]
          simpa [named] using tail

theorem cfgStrg_noLabel {config : Parser} {word : Str} (item : String) (other : NoLabel config word) :
    cfgStrg config (some word) item = if Named config then pure none else Prog.undefined := by
  have lookup : findImage word config.images = if Named config then some none else none :=
    findImage_noLabel other
  rw [cfgStrg, cfgGetStrg, lookup]
  by_cases named : Named config
  · rw [if_pos named, if_pos named]
    rfl
  · rw [if_neg named, if_neg named]
    rfl

theorem cfgStrg_global (config : Parser) (item : String) :
    cfgStrg config none item = pure (cfgGetStrgI config.options (str item)) := rfl

/-! ## Runs -/

section Runs

variable {config : Parser} {console : Console} {bi : BootInfo} {line : Str}

/-- The words at the prompt are those of the typed line. -/
theorem promptWords_typed (typed : lastKey config console bi ≠ 10)
    (reads : console.line (lastKey config console bi) = line) (plain : line.head? ≠ some 33)
    (word : firstWord line ≠ []) {auto : Option Str × Str} (known : autoWords config bi = some auto) :
    promptWords config console bi =
      .ok (some (firstWord line), afterWord line) { bi with triedAuto := true } := by
  rw [promptWords, Prog.bind_run_ok (Prog.view_run _), known, Prog.defined_some,
    Prog.bind_run_ok (Prog.pure_run _), Prog.bind_run_ok (Prog.view_run _),
    Prog.bind_run_ok (Prog.update_run _), if_neg typed, cmdEdit, reads,
    if_neg plain, Prog.bind_run_ok (Prog.pure_run _)]
  dsimp only
  rw [wordSplit_eq, if_neg word]
  rfl

theorem promptWords_missed (missed : autoWords config bi = none) :
    promptWords config console bi = .undefined := by
  rw [promptWords, Prog.bind_run_ok (Prog.view_run _), missed]
  exact Prog.bind_run_undefined rfl

/-- Behind two dashes an initrd of the configuration would stay. -/
theorem typedParams_follows_iff (initrd : Option Str) (curDev : EnvDev) :
    FollowsLine line (typedParams (some (firstWord line)) initrd (afterWord line) curDev bi) ↔
      ((afterWord line).take 3 = str "-- " → initrd = none) := by
  rw [typedParams, chomp_afterWord]
  dsimp only
  by_cases dashes : (afterWord line).take 3 = str "-- "
  · rw [if_pos dashes]
    constructor
    · rintro ⟨result, after, run, -, behind⟩ -
      obtain ⟨rfl, rfl⟩ := Outcome.ok.inj run
      rw [Behind, if_pos dashes] at behind
      exact behind.1
    · intro known
      refine ⟨_, _, rfl, rfl, ?_⟩
      rw [Behind, if_pos dashes]
      exact ⟨known dashes, rfl⟩
  · rw [if_neg dashes, wordSplit_eq]
    refine iff_of_true ⟨_, _, rfl, rfl, ?_⟩ fun found => absurd found dashes
    rw [Behind, if_neg dashes]
    exact ⟨rfl, rfl⟩

theorem not_followsLine_undefined : ¬FollowsLine line .undefined := by
  rintro ⟨result, after, run, -⟩
  cases run

end Runs

/-- A typed line that names no image gives what it says, unless a lookup misses
the path of an image, or the two dashes meet an initrd for all images. -/
theorem getParams_followsLine_iff (config : Parser) (console : Console) (buffer : Bool) (bi : BootInfo)
    {line : Str} (typed : lastKey config console bi ≠ 10)
    (reads : console.line (lastKey config console bi) = line) (plain : line.head? ≠ some 33)
    (word : firstWord line ≠ []) (noLabel : NoLabel config (firstWord line)) :
    FollowsLine line (getParams config console buffer bi) ↔
      (autoWords config bi).isSome ∧ (bi.configValid = true → Named config ∧
        ((afterWord line).take 3 = str "-- " → cfgGetStrgI config.options (str "initrd") = none)) := by
  cases known : autoWords config bi with
  | none =>
      rw [getParams, Prog.bind_run_undefined (promptWords_missed known)]
      exact iff_of_false not_followsLine_undefined fun condition => absurd condition.1 Bool.false_ne_true
  | some auto =>
      rw [getParams, Prog.bind_run_ok (promptWords_typed typed reads plain word known), paramsFrom,
        Prog.bind_run_ok (Prog.view_run _)]
      dsimp only
      cases bi.configValid with
      | false =>
          rw [if_neg Bool.false_ne_true, typedParams_follows_iff]
          simp
      | true =>
          rw [if_pos rfl, cfgStrg_global, Prog.bind_run_ok (Prog.pure_run _),
            cfgStrg_noLabel "image" noLabel]
          by_cases named : Named config
          · rw [if_pos named, Prog.bind_run_ok (Prog.pure_run _)]
            dsimp only
            rw [typedParams_follows_iff]
            simp [named]
          · rw [if_neg named, Prog.bind_run_undefined (Prog.undefined_run)]
            exact iff_of_false not_followsLine_undefined fun condition => named (condition.2 rfl).1

/-! ## A configuration with an initrd for all images -/

/-- `initrd=/initrd` for all images, and the image `Linux`. -/
def initrdConfig : Parser :=
  { Parser.fresh with
    options := cfOptions.map fun entry =>
      if entry.name = str "initrd" then entry.set (some (str "/initrd")) else entry
    images := [cfImage.map fun entry =>
      if entry.name = str "image" then entry.set (some (str "/boot/Linux")) else entry] }

/-- The configuration is read, and this is not the first prompt. -/
def laterPrompt : BootInfo := { BootInfo.start with configValid := true, triedAuto := true }

theorem getParams_followsLine_sample :
    FollowsLine (str " /vmlinux  /initrd2 ro")
        (getParams initrdConfig (typing (str " /vmlinux  /initrd2 ro")) true laterPrompt) ↔
      (autoWords initrdConfig laterPrompt).isSome ∧ (laterPrompt.configValid = true →
        Named initrdConfig ∧ ((afterWord (str " /vmlinux  /initrd2 ro")).take 3 = str "-- " →
          cfgGetStrgI initrdConfig.options (str "initrd") = none)) :=
  getParams_followsLine_iff initrdConfig (typing (str " /vmlinux  /initrd2 ro")) true laterPrompt
    (by decide +kernel) (by decide +kernel) (by decide +kernel) (by decide +kernel) (by decide +kernel)

/-- The initrd of the configuration is loaded with a kernel that is typed
without one. -/
theorem dashes_keep_initrd :
    lastKey initrdConfig (typing (str "/vmlinux -- ro")) laterPrompt = -1 ∧
    (typing (str "/vmlinux -- ro")).line (-1) = str "/vmlinux -- ro" ∧
    NoLabel initrdConfig (firstWord (str "/vmlinux -- ro")) ∧
    ¬FollowsLine (str "/vmlinux -- ro")
      (getParams initrdConfig (typing (str "/vmlinux -- ro")) true laterPrompt) := by
  refine ⟨by decide +kernel, by decide +kernel, by decide +kernel, ?_⟩
  rintro ⟨result, after, run, -, behind⟩
  have initrd : (getParams initrdConfig (typing (str "/vmlinux -- ro")) true laterPrompt).value?.map
      BootParams.initrd = some (some (str "/initrd")) := by decide +kernel
  rw [run] at initrd
  rw [Behind, if_pos (by decide +kernel)] at behind
  rw [Outcome.value?, Option.map_some, behind.1] at initrd
  cases initrd

end IQuik.Loader
