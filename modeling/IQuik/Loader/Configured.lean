import IQuik.Loader.BootLine
import IQuik.Loader.BootLoop
import IQuik.Loader.ConfigFile

namespace IQuik.Loader

open IQuik.Data IQuik.Program IQuik.Config IQuik.Storage

/-! # What a configuration boots

From the text of the configuration on the disk to the paths and the parameters at the prompt. -/

/-- What is to be booted. -/
structure Intent where
  kernel : Str
  initrd : Option Str
  params : Str
  oldKernel : Bool
  pauseAfter : Bool
  pauseMessage : Option Str
deriving DecidableEq

/-- The kernel parameters that options with these values ask for. -/
def optionParams (value : String → Option Str) : Str :=
  withValue "root=" (value "root") ++ (if (value "read-only").isSome then str "ro " else []) ++
    (if (value "read-write").isSome then str "rw " else []) ++ withValue "ramdisk=" (value "ramdisk") ++
    withValue "" (value "append")

/-- An image without `literal` has its parameters made of its options. With it, the pauses are not
looked at either. -/
def intentOf (value : String → Option Str) (kernel typed : Str) : Intent where
  kernel := kernel
  initrd := value "initrd"
  params := match value "literal" with
    | some literal => if typed = [] then literal else if literal = [] then typed else literal ++ [32] ++ typed
    | none => optionParams value ++ typed
  oldKernel := (value "old-kernel").isSome
  pauseAfter := (value "literal").isNone && (value "pause-after").isSome
  pauseMessage := if (value "literal").isNone then value "pause-message" else none

/-- What the image called `label` is to boot, with the parameters `typed`. -/
def intended (config : Configuration) (label typed : Str) : Option Intent :=
  ((config.value label (str "image")).filter (· ≠ [])).map fun kernel =>
    intentOf (fun item => config.value label (str item)) kernel typed

/-- The image that is booted when no other is asked for. -/
def defaultLabel (config : Configuration) : Option Str :=
  (optionFor config "default").or (config.images.head?.map Image.label)

/-- Where a path leads to from the default device. -/
def located (default : EnvDev) (spec : Str) : Option FsPath := (filePath spec default true .start).value?

def Intent.paths (intent : Intent) (default : EnvDev) : Option LoadPaths := do
  let kernel ← located default intent.kernel
  match intent.initrd with
  | none => pure { kernel := kernel, initrd := none, params := intent.params }
  | some spec =>
      let initrd ← located default spec
      pure { kernel := kernel, initrd := some initrd, params := intent.params }

/-- The globals once the image has been chosen. -/
def BootInfo.asked (bi : BootInfo) (intent : Intent) : BootInfo :=
  { bi with
    bootPre24 := intent.oldKernel
    pauseBeforeBoot := bi.pauseBeforeBoot || intent.pauseAfter
    pauseMessage := intent.pauseMessage.or bi.pauseMessage }

/-! ## An image and its options -/

section Lookups

variable {config : Configuration} {parser : Parser} {label typed : Str} {intent : Intent} {bi : BootInfo}

/-- The options of a label are those of the image that has it. -/
theorem stored_refers (stored : config.Stored parser) (known : intended config label typed = some intent) :
    ∃ image, Refers parser (some label) image ∧
      ∀ item, str item ∈ optionNames → valueFor parser image item = config.value label (str item) := by
  have path : config.value label (str "image") ≠ none := by
    intro missing
    rw [intended, missing] at known
    cases known
  obtain ⟨found, run, same⟩ := findImage_holds stored.images label
  rw [Configuration.value] at path
  generalize value : config.images.find? (Image.Called label) = image at same path
  cases same with
  | none => exact absurd rfl path
  | @some image table holds =>
      refine ⟨table, refers_found run, fun item member => ?_⟩
      rw [valueFor, holds (str item) member, stored.globals (str item) member, Configuration.value, value]
      rfl

theorem intentOf_congr {value other : String → Option Str} (kernel typed : Str)
    (same : ∀ item, str item ∈ optionNames → value item = other item) :
    intentOf value kernel typed = intentOf other kernel typed := by
  have initrd := same "initrd" (by decide +kernel)
  have literal := same "literal" (by decide +kernel)
  have root := same "root" (by decide +kernel)
  have readOnly := same "read-only" (by decide +kernel)
  have readWrite := same "read-write" (by decide +kernel)
  have ramdisk := same "ramdisk" (by decide +kernel)
  have append := same "append" (by decide +kernel)
  have oldKernel := same "old-kernel" (by decide +kernel)
  have pauseAfter := same "pause-after" (by decide +kernel)
  have pauseMessage := same "pause-message" (by decide +kernel)
  simp only [intentOf, optionParams, initrd, literal, root, readOnly, readWrite, ramdisk, append, oldKernel,
    pauseAfter, pauseMessage]

/-- The parameters and the pauses of an image are those of its intent. -/
theorem intentOf_params (parser : Parser) (image : Table) (kernel typed : Str) :
    (intentOf (valueFor parser image) kernel typed).params = paramsFor parser image typed := by
  rw [intentOf, paramsFor]
  cases valueFor parser image "literal" <;> rfl

theorem asked_intentOf (parser : Parser) (image : Table) (kernel typed : Str) (bi : BootInfo) :
    (bi.withKernelAge parser image).withPause parser image =
      bi.asked (intentOf (valueFor parser image) kernel typed) := by
  rw [BootInfo.withPause, BootInfo.asked, intentOf, BootInfo.withKernelAge]
  cases valueFor parser image "literal" <;> simp

/-- `get_params` finds what is intended. -/
theorem paramsFrom_intended (stored : config.Stored parser) (known : intended config label typed = some intent)
    (valid : bi.configValid = true) (short : intent.params.length < 2048) :
    ∃ curDev, paramsFrom parser true (some label, typed) bi =
      .ok { kernel := intent.kernel, initrd := intent.initrd, params := intent.params, curDev := curDev }
        (bi.asked intent) := by
  obtain ⟨image, refers, values⟩ := stored_refers stored known
  rw [intended, Option.map_eq_some_iff] at known
  obtain ⟨kernel, path, rfl⟩ := known
  rw [← values "image" (by decide +kernel)] at path
  rw [← intentOf_congr kernel typed values] at short ⊢
  rw [intentOf_params] at short ⊢
  have twice : (valueFor parser image "initrd").or (cfgGetStrgI parser.options (str "initrd")) =
      valueFor parser image "initrd" := by rw [valueFor, Option.or_assoc, Option.or_self]
  have made : labelParams parser true (some label) kernel (cfgGetStrgI parser.options (str "initrd")) typed bi =
      .ok { kernel := kernel, initrd := valueFor parser image "initrd", params := paramsFor parser image typed,
            curDev := devFor parser image } ((bi.withKernelAge parser image).withPause parser image) :=
    (labelParams_eq_ok refers).mpr ⟨rfl, short, by rw [twice], rfl⟩
  refine ⟨devFor parser image, ?_⟩
  rw [paramsFrom_refers valid refers, path]
  dsimp only
  rw [Prog.bind_run_ok made, asked_intentOf parser image kernel typed bi]
  rfl

variable (bi) in
/-- On a valid default device, the paths are found. -/
theorem pathsFrom_intended (room : Room) (granted : room.kernel = true ∧ room.initrd = true)
    (valid : bi.defaultDev.isValid = true) {curDev : EnvDev} {paths : LoadPaths}
    (found : intent.paths bi.defaultDev = some paths) :
    pathsFrom room { kernel := intent.kernel, initrd := intent.initrd, params := intent.params, curDev := curDev } bi =
      .ok paths bi := by
  have propagated : Prog.attempt envDevUpdateFromDefault bi = .ok (.ok bi.defaultDev) bi := by
    rw [Prog.attempt, envDevUpdateFromDefault, Prog.view_bind, if_pos valid]
    rfl
  have path {spec : Str} {path : FsPath} (place : located bi.defaultDev spec = some path) :
      filePath spec bi.defaultDev true bi = .ok path bi := by
    obtain ⟨result, steady⟩ | ⟨code, steady⟩ := filePath_steady spec bi.defaultDev true
    · rw [located, steady] at place
      obtain rfl := Option.some.inj place
      rw [steady]
      rfl
    · rw [located, steady] at place
      cases place
  rw [Intent.paths] at found
  obtain ⟨kernel, first, found⟩ := Option.bind_eq_some_iff.mp found
  have taken (cur : EnvDev) : (Except.ok bi.defaultDev : Except QuikErr EnvDev).toOption.getD cur = bi.defaultDev := rfl
  rw [pathsFrom, Prog.bind_run_ok propagated, taken, granted.1, Prog.bind_run_ok (path first), if_pos valid]
  cases spec : intent.initrd with
  | none =>
      rw [spec] at found
      obtain rfl := Option.some.inj found
      rfl
  | some spec' =>
      rw [spec] at found
      obtain ⟨initrd, second, found⟩ := Option.bind_eq_some_iff.mp found
      obtain rfl := Option.some.inj found
      dsimp only
      rw [granted.2, Prog.bind_run_ok (path second)]
      rfl

end Lookups

/-! ## From the prompt -/

/-- How long the prompt waits for a key; it waits for a line with -1. -/
def waitsFor (config : Configuration) (bi : BootInfo) : Int :=
  if bi.triedAuto then -1
  else if (wordSplit bi.bootargs).1.isSome then 0
  else match (optionFor config "timeout").filter (· ≠ []) with
    | some timeout => (strtol timeout 0).1
    | none => -1

/-- The key that ends the waiting. -/
def pressed (config : Configuration) (console : Console) (bi : BootInfo) : Int :=
  if waitsFor config bi = -1 then -1 else console.key

/-- How a label comes to be chosen, with the parameters behind it: nobody presses a key, and the
firmware passes it or the configuration has it as the default; or it is typed. -/
inductive Chosen (config : Configuration) (console : Console) (bi : BootInfo) : Str → Str → Prop
  | passed {label typed : Str} (first : bi.triedAuto = false) (silent : pressed config console bi = 10)
      (passes : wordSplit bi.bootargs = (some label, typed)) : Chosen config console bi label typed
  | default {label typed : Str} (first : bi.triedAuto = false) (silent : pressed config console bi = 10)
      (passes : wordSplit bi.bootargs = (none, typed)) (name : defaultLabel config = some label) :
      Chosen config console bi label typed
  | typed {line : Str} (awake : pressed config console bi ≠ 10)
      (reads : console.line (pressed config console bi) = line) (plain : line.head? ≠ some 33)
      (word : firstWord line ≠ []) : Chosen config console bi (firstWord line) (afterWord line)

section Prompt

variable {config : Configuration} {parser : Parser} {console : Console} {label typed : Str} {bi : BootInfo}

theorem cfgGetDefault_stored (stored : config.Stored parser) : cfgGetDefault parser = some (defaultLabel config) := by
  have default : cfgGetStrgI parser.options (str "default") = optionFor config "default" :=
    stored.globals (str "default") (by decide +kernel)
  rw [cfgGetDefault, defaultLabel, default]
  cases optionFor config "default" with
  | some label => rfl
  | none =>
      have images := stored.images
      generalize config.images = sections at images
      generalize parser.images = tables at images
      cases images with
      | nil => rfl
      | cons first rest => exact congrArg (Option.map some) (imageName_holds first)

theorem lastKey_stored (stored : config.Stored parser) (valid : bi.configValid = true) :
    lastKey parser console bi = pressed config console bi := by
  have timeout : cfgGetStrgI parser.options (str "timeout") = optionFor config "timeout" :=
    stored.globals (str "timeout") (by decide +kernel)
  have limit : autoTimeout parser bi = waitsFor config bi := by
    rw [autoTimeout, waitsFor, if_pos valid, timeout]
    cases optionFor config "timeout" with
    | none => rfl
    | some text =>
        by_cases empty : text = []
        · subst empty
          rfl
        · simp [empty, Option.filter]
  rw [lastKey, limit, pressed]

variable (bi) in
theorem autoWords_stored (stored : config.Stored parser) : autoWords parser bi = some
    (if bi.triedAuto then (none, [])
      else ((wordSplit bi.bootargs).1.or (defaultLabel config), (wordSplit bi.bootargs).2)) := by
  rw [autoWords, cfgGetDefault_stored stored]
  cases bi.triedAuto with
  | true => rfl
  | false =>
      obtain ⟨word, typed⟩ := wordSplit bi.bootargs
      cases word <;> rfl

/-- The prompt gives the label that was chosen. -/
theorem Chosen.words (chosen : Chosen config console bi label typed) (stored : config.Stored parser)
    (valid : bi.configValid = true) :
    promptWords parser console bi = .ok (some label, typed) { bi with triedAuto := true } := by
  have key : lastKey parser console bi = pressed config console bi := lastKey_stored stored valid
  have auto := autoWords_stored bi stored
  cases chosen with
  | passed first silent passes =>
      rw [promptWords, Prog.view_bind, auto, Prog.defined_some, Prog.pure_bind, Prog.view_bind, Prog.update_bind, key,
        silent, first, passes]
      rfl
  | default first silent passes name =>
      rw [promptWords, Prog.view_bind, auto, Prog.defined_some, Prog.pure_bind, Prog.view_bind, Prog.update_bind, key,
        silent, first, passes, name]
      rfl
  | typed awake reads plain word =>
      rw [← key] at awake reads
      exact promptWords_typed awake reads plain word auto

end Prompt

/-! ## From the disk to the kernel -/

section Boots

variable {machine : Storage.Machine} {fuel : Nat} {garbage : Nat → UInt8} {config : Configuration}
  {setup after : Setup} {fs : Fs} {console : Console} {label typed : Str} {intent : Intent}

/-- The device and the partition that the configuration leaves as the default. -/
def deviceAfter (config : Configuration) (bi : BootInfo) : EnvDev :=
  (({ Globals.start with bi }).configured (optionFor config)).bi.defaultDev

/-- A valid default device stays valid. -/
theorem configured_valid (globals : Globals) (option : String → Option Str)
    (valid : globals.bi.defaultDev.isValid = true) : (globals.configured option).bi.defaultDev.isValid = true := by
  obtain ⟨device, part⟩ := Bool.and_eq_true_iff.mp valid
  rw [EnvDev.isValid, Globals.configured]
  cases (option "partition").bind decimalPart <;> cases option "device" <;> simp [envDevSetPart, device, part]

theorem readConfig_valid {bi : BootInfo} {bytes : List UInt8} {before : Fs}
    (read : readConfig machine fuel garbage bi before = .ok bytes fs) : bi.defaultDev.isValid = true := by
  rw [readConfig] at read
  split at read
  · assumption
  · cases read

/-- A configuration on the disk, and a label that is chosen at the first prompt or typed later, boot
the kernel that the configuration has for it, with its initrd and its parameters. -/
theorem label_boots_image (fresh : setup.config = .fresh) (ordinary : config.Ordinary)
    (read : readConfig machine fuel garbage setup.globals.bi setup.fs = .ok config.text fs)
    (granted : Granted (fun request => machine.grants (fs.mallocs + request)) config.requests)
    (enough : 2 * config.text.length + 1 < fuel)
    (returned : (loadConfig machine fuel garbage setup).state? = some after)
    (chosen : Chosen config console after.globals.bi label typed)
    (known : intended config label typed = some intent) (short : intent.params.length < 2048)
    {paths : LoadPaths} (found : intent.paths (deviceAfter config setup.globals.bi) = some paths) :
    getLoadPaths after.config console { buffer := true, kernel := true, initrd := true } after.globals.bi =
      .ok paths ({ after.globals.bi with triedAuto := true }.asked intent) := by
  obtain ⟨-, obeys⟩ := (config_obeyed fresh ordinary read granted enough).2 after returned
  have valid : after.globals.bi.configValid = true := by rw [obeys.globals]; rfl
  have default : after.globals.bi.defaultDev = deviceAfter config setup.globals.bi := by rw [obeys.globals]; rfl
  have device : after.globals.bi.defaultDev.isValid = true := by
    rw [obeys.globals]
    exact configured_valid _ _ (readConfig_valid read)
  obtain ⟨curDev, params⟩ := paramsFrom_intended obeys.stored known
    (show ({ after.globals.bi with triedAuto := true } : BootInfo).configValid = true from valid) short
  have run : getParams after.config console true after.globals.bi = .ok
      { kernel := intent.kernel, initrd := intent.initrd, params := intent.params, curDev := curDev }
      ({ after.globals.bi with triedAuto := true }.asked intent) := by
    rw [getParams, Prog.bind_run_ok (chosen.words obeys.stored valid)]
    exact params
  rw [getLoadPaths, Prog.bind_run_ok run]
  rw [← default] at found
  exact pathsFrom_intended ({ after.globals.bi with triedAuto := true }.asked intent)
    { buffer := true, kernel := true, initrd := true } ⟨rfl, rfl⟩ device found

end Boots

/-- A configuration with a time limit and one image. -/
def bootConfig : Configuration where
  globals := ⟨[⟨str "timeout", some (str "5")⟩, ⟨str "root", some (str "/dev/sda2")⟩], by decide +kernel, by decide +kernel,
    by decide +kernel⟩
  images := [⟨str "/boot/linux", by decide +kernel, ⟨[⟨str "label", some (str "Linux")⟩, ⟨str "read-only", none⟩],
    by decide +kernel, by decide +kernel, by decide +kernel⟩⟩]

/-- The configuration is the file `/f`. -/
def bootDisk : Data.Image :=
  Ext2.sampleDisk (Ext2.sampleVolume 32768 Ext2.oneFile
    [(256, [0, 0x80, 0, 0, bootConfig.text.length.toUInt8]), (296, [6])] [(6, bootConfig.text)]) []

def bootSetup : Setup where
  fs := .startUp
  globals := { Globals.start with
    bi.defaultDev := { device := some (str "hd"), part := 1, partValid := true }
    bi.configFile := some (str "/f")
    bi.bootargs := some [] }
  config := .fresh

/-- Nobody presses a key. -/
def untouched : Console where
  key := 10
  keys := []
  command := fun _ bi => bi

theorem label_boots_image_sample : ∃ after final,
    loadConfig (Ext2.diskMachine bootDisk) 300 (fun _ => 0) bootSetup = .ok ⟨⟩ after ∧
      getLoadPaths after.config untouched { buffer := true, kernel := true, initrd := true } after.globals.bi =
        .ok { kernel := { device := some (str "hd"), part := 1, path := str "/boot/linux" }
              initrd := none
              params := str "root=/dev/sda2 ro " } final := by
  have text : (readConfig (Ext2.diskMachine bootDisk) 300 (fun _ => 0) bootSetup.globals.bi bootSetup.fs).value? =
      some bootConfig.text := by decide +kernel
  obtain ⟨fs, read⟩ := Outcome.value?_eq_some.mp text
  have ordinary : bootConfig.Ordinary := by decide +kernel
  have enough : 2 * bootConfig.text.length + 1 < 300 := by decide +kernel
  obtain ⟨exists', obeyed⟩ := config_obeyed rfl ordinary read (fun _ _ => rfl) enough
  obtain ⟨after, run⟩ := exists' (by decide +kernel)
  have returned := congrArg Outcome.state? run
  have globals := (obeyed after returned).2.globals
  have known : intended bootConfig (str "Linux") [] =
      some ⟨str "/boot/linux", none, str "root=/dev/sda2 ro ", false, false, none⟩ := by decide +kernel
  have chosen : Chosen bootConfig untouched after.globals.bi (str "Linux") [] := by
    rw [globals]
    exact .default rfl (by decide +kernel) rfl (by decide +kernel)
  exact ⟨after, _, run, label_boots_image rfl ordinary read (fun _ _ => rfl) enough returned chosen known
    (by decide +kernel) (by decide +kernel)⟩

end IQuik.Loader
