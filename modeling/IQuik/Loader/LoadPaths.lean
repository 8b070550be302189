import IQuik.Loader.Parameters
import IQuik.Program.Frames

namespace IQuik.Loader

open IQuik.Data IQuik.Program IQuik.Config

/-! # Paths of the kernel and the initrd -/

/-- `path_t`. -/
structure FsPath where
  device : Option Str
  part : Nat
  path : Str
deriving DecidableEq

/-- The end of `file_path`: a path starts with a slash, or is left out. -/
def fsPath (device : Option Str) (part : Nat) (path : Str) : BootProg FsPath :=
  if path.head? = some 47 then pure { device := device, part := part, path := path }
  else if path = [] then pure { device := device, part := part, path := str "/" }
  else Prog.fail .fsPath

/-- `file_path`; `room` tells whether the copy of the string is granted. -/
def filePath (pathspec : Str) (defaultDev : EnvDev) (room : Bool) : BootProg FsPath :=
  if room then
    let pathspec := chomp pathspec
    if 58 ∈ pathspec then
      let device := pathspec.takeWhile (· ≠ 58)
      let p := afterColon pathspec
      if device = [] then Prog.fail .fsPath
      else
        let n := strtol p 0
        if n.2 = 0 then Prog.fail .fsPath
        else fsPath (some device) (unsigned n.1) (p.drop n.2)
    else if defaultDev.isValid then fsPath defaultDev.device defaultDev.part pathspec
    else Prog.fail .envCurrentBad
  else Prog.fail .noMem

/-- What `malloc` grants during one attempt to boot. -/
structure Room where
  buffer : Bool
  kernel : Bool
  initrd : Bool

structure LoadPaths where
  kernel : FsPath
  initrd : Option FsPath
  params : Str
deriving DecidableEq

/-- `get_load_paths` once the parameters are there. -/
def pathsFrom (room : Room) (params : BootParams) : BootProg LoadPaths := do
  let propagated ← Prog.attempt envDevUpdateFromDefault
  let curDev := propagated.toOption.getD params.curDev
  let kernel ← filePath params.kernel curDev room.kernel
  let curDev := if curDev.isValid then curDev
    else { envDevSetPart curDev kernel.part with device := kernel.device }
  match params.initrd with
  | none => pure { kernel := kernel, initrd := none, params := params.params }
  | some spec => do
      let initrd ← filePath spec curDev room.initrd
      pure { kernel := kernel, initrd := some initrd, params := params.params }

def getLoadPaths (config : Parser) (console : Console) (room : Room) : BootProg LoadPaths := do
  let params ← getParams config console room.buffer
  pathsFrom room params

/-! ## Options of an image -/

/-- The value of an option for `image`: its own, or else the one for all images. -/
def valueFor (config : Parser) (image : Table) (item : String) : Option Str :=
  (cfgGetStrgI image (str item)).or (cfgGetStrgI config.options (str item))

/-- The options of `image` are those looked up with `label`. -/
def Refers (config : Parser) (label : Option Str) (image : Table) : Prop :=
  ∀ item, cfgGetStrg config label item =
    some ((cfgGetStrgI image item).or (cfgGetStrgI config.options item))

/-- Without a label only the options for all images are looked up. -/
theorem refers_none (config : Parser) : Refers config none [] := fun _ => rfl

section Label

variable {config : Parser} {label : Option Str} {image : Table}

theorem refers_found {label : Str} (found : findImage label config.images = some (some image)) :
    Refers config (some label) image := by
  intro item
  rw [cfgGetStrg, found]
  rfl

theorem cfgStrg_refers (item : String) (refers : Refers config label image) :
    cfgStrg config label item = pure (valueFor config image item) := by
  rw [cfgStrg, refers]
  rfl

theorem cfgFlag_refers (item : String) (refers : Refers config label image) :
    cfgFlag config label item = pure (valueFor config image item).isSome := by
  rw [cfgFlag, cfgGetFlag, refers]
  rfl

/-- The device and the partition that the options name. -/
def devFor (config : Parser) (image : Table) : EnvDev :=
  let dev := { EnvDev.none with device := valueFor config image "device" }
  (((valueFor config image "partition").bind decimalPart).map (envDevSetPart dev)).getD dev

theorem labelDev_refers (refers : Refers config label image) :
    labelDev config label = pure (devFor config image) := by
  rw [labelDev, cfgStrg_refers _ refers, cfgStrg_refers _ refers]
  rfl

/-- The kernel parameters that the options ask for, without those typed. -/
def optionsText (config : Parser) (image : Table) : Str :=
  withValue "root=" (valueFor config image "root") ++
    (if (valueFor config image "read-only").isSome then str "ro " else []) ++
    (if (valueFor config image "read-write").isSome then str "rw " else []) ++
    withValue "ramdisk=" (valueFor config image "ramdisk") ++
    withValue "" (valueFor config image "append")

/-- The kernel parameters of an image. -/
def paramsFor (config : Parser) (image : Table) (params : Str) : Str :=
  match valueFor config image "literal" with
  | some p => if params = [] then p else if p = [] then params else p ++ [32] ++ params
  | none => optionsText config image ++ params

/-- The pause that the options ask for; not looked at with `literal`. -/
def BootInfo.withPause (bi : BootInfo) (config : Parser) (image : Table) : BootInfo :=
  if (valueFor config image "literal").isSome then bi
  else
    { bi with
      pauseBeforeBoot := bi.pauseBeforeBoot || (valueFor config image "pause-after").isSome
      pauseMessage := (valueFor config image "pause-message").or bi.pauseMessage }

@[simp] theorem withPause_defaultDev (bi : BootInfo) (config : Parser) (image : Table) :
    (bi.withPause config image).defaultDev = bi.defaultDev := by
  rw [BootInfo.withPause]
  split <;> rfl

/-- Only the length of the parameters is left to see to. -/
theorem makeParams_granted (refers : Refers config label image) (params : Str) (bi : BootInfo) :
    makeParams config true label params bi =
      ((Prog.demand ((paramsFor config image params).length < 2048) : BootProg PUnit) >>= fun _ =>
        pure (paramsFor config image params)) (bi.withPause config image) := by
  rw [makeParams, if_pos rfl, cfgStrg_refers _ refers, Prog.pure_bind]
  cases literal : valueFor config image "literal" with
  | some p =>
      have text : paramsFor config image params =
          if params = [] then p else if p = [] then params else p ++ [32] ++ params := by
        rw [paramsFor, literal]
      have quiet : bi.withPause config image = bi := by
        rw [BootInfo.withPause, literal, Option.isSome_some, if_pos rfl]
      rw [text, quiet]
  | none =>
      have text : paramsFor config image params = optionsText config image ++ params := by
        rw [paramsFor, literal]
      simp only [cfgStrg_refers _ refers, cfgFlag_refers _ refers, Prog.pure_bind, Prog.update_bind]
      rw [text, BootInfo.withPause, literal, Option.isSome_none, if_neg Bool.false_ne_true]
      rfl

theorem makeParams_eq_ok (refers : Refers config label image) {buffer : Bool} {params text : Str}
    {bi after : BootInfo} :
    makeParams config buffer label params bi = .ok text after ↔
      buffer = true ∧ (paramsFor config image params).length < 2048 ∧
        text = paramsFor config image params ∧ after = bi.withPause config image := by
  cases buffer with
  | false => simp [makeParams]
  | true => rw [makeParams_granted refers, Prog.demand_bind_eq_ok, Prog.pure_eq_ok, eq_self_iff_true, true_and]

theorem labelParams_eq_ok (refers : Refers config label image) {buffer : Bool}
    {path params : Str} {initrd : Option Str} {bi after : BootInfo} {named : BootParams} :
    labelParams config buffer label path initrd params bi = .ok named after ↔
      buffer = true ∧ (paramsFor config image params).length < 2048 ∧
        named = { kernel := path, initrd := (valueFor config image "initrd").or initrd,
                  params := paramsFor config image params, curDev := devFor config image } ∧
        after = { bi with bootPre24 := (valueFor config image "old-kernel").isSome }.withPause config
          image := by
  rw [labelParams, labelDev_refers refers, Prog.pure_bind, cfgStrg_refers _ refers, Prog.pure_bind,
    cfgStrg_refers _ refers, Prog.pure_bind, Prog.update_bind, Prog.bind_eq_ok]
  simp only [makeParams_eq_ok refers, Prog.pure_eq_ok]
  constructor
  · rintro ⟨text, middle, ⟨granted, short, rfl, rfl⟩, rfl, rfl⟩
    exact ⟨granted, short, rfl, rfl⟩
  · rintro ⟨granted, short, rfl, rfl⟩
    exact ⟨_, _, ⟨granted, short, rfl, rfl⟩, rfl, rfl⟩

end Label

/-! ## Device and partition of the kernel -/

/-- The kernel has the device and the partition of its image, and where the
image has none of its own, the default ones. -/
def LocalWins (image : Table) (default : EnvDev) (kernel : FsPath) : Prop :=
  kernel.device = (cfgGetStrgI image (str "device")).or default.device ∧
    kernel.part = ((cfgGetStrgI image (str "partition")).bind decimalPart).getD default.part

/-- A valid default leaves nothing to the image, unless they name the same. An
invalid one leaves everything to the options, also to those for all images. -/
def LocalKept (config : Parser) (image : Table) (default : EnvDev) : Prop :=
  if default.isValid then
    (cfgGetStrgI image (str "device")).or default.device = default.device ∧
      ((cfgGetStrgI image (str "partition")).bind decimalPart).getD default.part = default.part
  else
    ((cfgGetStrgI image (str "device")).isSome ∨ valueFor config image "device" = default.device) ∧
      (((cfgGetStrgI image (str "partition")).bind decimalPart).isSome ∨
        (valueFor config image "partition").bind decimalPart = some default.part)

theorem fsPath_eq_ok {device : Option Str} {part : Nat} {path : Str} {bi after : BootInfo}
    {kernel : FsPath} (run : fsPath device part path bi = .ok kernel after) :
    kernel.device = device ∧ kernel.part = part ∧ after = bi := by
  rw [fsPath] at run
  split at run
  · obtain ⟨rfl, rfl⟩ := Prog.pure_eq_ok.mp run
    exact ⟨rfl, rfl, rfl⟩
  · split at run
    · obtain ⟨rfl, rfl⟩ := Prog.pure_eq_ok.mp run
      exact ⟨rfl, rfl, rfl⟩
    · cases run

theorem mem_chomp {c : UInt8} {s : Str} (member : c ∈ chomp s) : c ∈ s :=
  (List.dropWhile_sublist _).mem member

/-- A path without a device is on the default one, which must be valid. -/
theorem filePath_plain {spec : Str} {dev : EnvDev} {room : Bool} {bi after : BootInfo} {kernel : FsPath}
    (plain : 58 ∉ spec) (run : filePath spec dev room bi = .ok kernel after) :
    dev.isValid = true ∧ kernel.device = dev.device ∧ kernel.part = dev.part ∧ after = bi := by
  rw [filePath] at run
  split at run
  · dsimp only at run
    rw [if_neg fun member => plain (mem_chomp member)] at run
    split at run
    · exact ⟨‹_›, fsPath_eq_ok run⟩
    · cases run
  · cases run

/-- Options that name a device and a partition. -/
theorem devFor_valid {config : Parser} {image : Table} (valid : (devFor config image).isValid = true) :
    ∃ n, (valueFor config image "partition").bind decimalPart = some n ∧
      devFor config image = { device := valueFor config image "device", part := n, partValid := true } := by
  cases decimal : (valueFor config image "partition").bind decimalPart with
  | none =>
      rw [devFor, decimal] at valid
      simp [EnvDev.isValid, EnvDev.none] at valid
  | some n =>
      refine ⟨n, rfl, ?_⟩
      rw [devFor, decimal]
      rfl

section Kernel

variable {config : Parser} {console : Console} {room : Room} {bi mid after : BootInfo} {label params : Str}
  {image : Table} {path : Str}

/-- A prompt that gives words changes nothing but that it was there. -/
theorem promptWords_state {words : Option Str × Str}
    (run : promptWords config console bi = .ok words mid) : mid = { bi with triedAuto := true } := by
  rw [promptWords, Prog.view_bind] at run
  cases known : autoWords config bi with
  | none =>
      rw [known, Prog.defined_none, Prog.undefined_bind] at run
      cases run
  | some auto =>
      rw [known, Prog.defined_some, Prog.pure_bind, Prog.view_bind, Prog.update_bind] at run
      split at run
      · exact (Prog.pure_eq_ok.mp run).2
      · rw [cmdEdit] at run
        split at run
        · rw [Prog.bind_assoc, Prog.update_bind, Prog.pure_bind] at run
          cases run
        · rw [Prog.pure_bind] at run
          exact (Prog.pure_eq_ok.mp run).2

theorem getParams_found (prompt : promptWords config console bi = .ok (some label, params) mid)
    (valid : mid.configValid = true) (found : findImage label config.images = some (some image))
    (named : valueFor config image "image" = some path) (some' : path ≠ []) (buffer : Bool) :
    getParams config console buffer bi =
      labelParams config buffer (some label) path (cfgGetStrgI config.options (str "initrd")) params mid := by
  rw [getParams, Prog.bind_run_ok prompt, paramsFrom, Prog.view_bind, if_pos valid]
  rw [show cfgStrg config none "initrd" = pure (cfgGetStrgI config.options (str "initrd")) from rfl,
    Prog.pure_bind, cfgStrg_refers "image" (refers_found found), Prog.pure_bind, named]
  dsimp only
  rw [if_neg some']
  exact congrFun (Prog.bind_pure _) mid

/-- The device that the kernel path is taken with. -/
def propagate (default cur : EnvDev) : EnvDev := if default.isValid then default else cur

theorem propagated_run (cur : EnvDev) {result : Except QuikErr EnvDev}
    (run : Prog.attempt envDevUpdateFromDefault bi = .ok result after) :
    result.toOption.getD cur = propagate bi.defaultDev cur ∧ after = bi := by
  by_cases valid : bi.defaultDev.isValid = true
  · have step : envDevUpdateFromDefault bi = .ok bi.defaultDev bi := by
      rw [envDevUpdateFromDefault, Prog.view_bind, if_pos valid, Prog.pure_run]
    rw [Prog.attempt, step] at run
    cases run
    rw [propagate, if_pos valid]
    exact ⟨rfl, rfl⟩
  · have step : envDevUpdateFromDefault bi = .error .envDefaultBad bi := by
      rw [envDevUpdateFromDefault, Prog.view_bind, if_neg valid, Prog.fail_run]
    rw [Prog.attempt, step] at run
    cases run
    rw [propagate, if_neg valid]
    exact ⟨rfl, rfl⟩

/-- The kernel path of a label without a device in its path. -/
theorem getLoadPaths_kernel (prompt : promptWords config console bi = .ok (some label, params) mid)
    (valid : mid.configValid = true) (found : findImage label config.images = some (some image))
    (named : valueFor config image "image" = some path) (some' : path ≠ []) (plain : 58 ∉ path)
    {paths : LoadPaths} (run : getLoadPaths config console room bi = .ok paths after) :
    (propagate bi.defaultDev (devFor config image)).isValid = true ∧
      paths.kernel.device = (propagate bi.defaultDev (devFor config image)).device ∧
      paths.kernel.part = (propagate bi.defaultDev (devFor config image)).part := by
  obtain rfl := promptWords_state prompt
  rw [getLoadPaths] at run
  obtain ⟨words, state, got, run⟩ := Prog.bind_eq_ok.mp run
  rw [getParams_found prompt valid found named some'] at got
  obtain ⟨-, -, rfl, rfl⟩ := (labelParams_eq_ok (refers_found found)).mp got
  rw [pathsFrom] at run
  obtain ⟨result, other, propagated, run⟩ := Prog.bind_eq_ok.mp run
  obtain ⟨curDev, rfl⟩ := propagated_run (devFor config image) propagated
  rw [curDev, withPause_defaultDev] at run
  obtain ⟨kernel, last, opened, run⟩ := Prog.bind_eq_ok.mp run
  obtain ⟨valid', device, part, rfl⟩ := filePath_plain plain opened
  have same : paths.kernel = kernel := by
    dsimp only at run
    cases chosen : (valueFor config image "initrd").or (cfgGetStrgI config.options (str "initrd")) with
    | none =>
        rw [chosen] at run
        exact congrArg LoadPaths.kernel (Prog.pure_eq_ok.mp run).1
    | some spec =>
        rw [chosen] at run
        obtain ⟨initrd, final, -, run⟩ := Prog.bind_eq_ok.mp run
        exact congrArg LoadPaths.kernel (Prog.pure_eq_ok.mp run).1
  rw [same]
  exact ⟨valid', device, part⟩

/-- The options of the image win exactly if a valid default does not differ from
them, and an invalid one leaves nothing to the options for all images that the
default has otherwise. -/
theorem localWins_iff (prompt : promptWords config console bi = .ok (some label, params) mid)
    (valid : mid.configValid = true) (found : findImage label config.images = some (some image))
    (named : valueFor config image "image" = some path) (some' : path ≠ []) (plain : 58 ∉ path)
    {paths : LoadPaths} (run : getLoadPaths config console room bi = .ok paths after) :
    LocalWins image bi.defaultDev paths.kernel ↔ LocalKept config image bi.defaultDev := by
  obtain ⟨usable, device, part⟩ := getLoadPaths_kernel prompt valid found named some' plain run
  rw [LocalWins, device, part, LocalKept]
  by_cases known : bi.defaultDev.isValid = true
  · rw [if_pos known, propagate, if_pos known]
    exact and_congr eq_comm eq_comm
  · rw [if_neg known, propagate, if_neg known]
    rw [propagate, if_neg known] at usable
    obtain ⟨n, decimal, same⟩ := devFor_valid usable
    rw [same, decimal]
    refine and_congr ?_ ?_
    · rw [valueFor]
      cases cfgGetStrgI image (str "device") <;> simp
    · cases own : (cfgGetStrgI image (str "partition")).bind decimalPart with
      | none => simp
      | some m =>
          have first : n = m := by
            obtain ⟨value, here, number⟩ := Option.bind_eq_some_iff.mp own
            rw [valueFor, here, Option.some_or, Option.bind_some, number] at decimal
            exact (Option.some.inj decimal).symm
          simp [first]

end Kernel

/-! ## An image with a device of its own -/

/-- The image `Linux` on another device than the default one. -/
def ownDeviceConfig : Parser :=
  { Parser.fresh with
    images := [cfImage.map fun entry =>
      if entry.name = str "image" then entry.set (some (str "/Linux"))
      else if entry.name = str "device" then entry.set (some (str "ata1/ata-disk@0"))
      else if entry.name = str "partition" then entry.set (some (str "4"))
      else entry] }

/-- The configuration is read, from partition 3 of the first disk. -/
def defaultKnown : BootInfo :=
  { BootInfo.start with
    configValid := true
    triedAuto := true
    defaultDev := { device := some (str "ata0/ata-disk@0"), part := 3, partValid := true } }

def roomy : Room := { buffer := true, kernel := true, initrd := true }

/-- What the attempt returns: the kernel on the default device. -/
def linuxPaths : LoadPaths where
  kernel := { device := some (str "ata0/ata-disk@0"), part := 3, path := str "/Linux" }
  initrd := none
  params := []

def linuxImage : Table := ownDeviceConfig.images.head (by decide)

theorem linux_prompt : promptWords ownDeviceConfig (typing (str "Linux")) defaultKnown =
    .ok (some (str "Linux"), []) defaultKnown := by
  have run : (promptWords ownDeviceConfig (typing (str "Linux")) defaultKnown).result? =
      some ((some (str "Linux"), []), defaultKnown) := by decide +kernel
  exact Outcome.result?_eq_some.mp run

theorem linux_run : getLoadPaths ownDeviceConfig (typing (str "Linux")) roomy defaultKnown =
    .ok linuxPaths defaultKnown := by
  have run : (getLoadPaths ownDeviceConfig (typing (str "Linux")) roomy defaultKnown).result? =
      some (linuxPaths, defaultKnown) := by decide +kernel
  exact Outcome.result?_eq_some.mp run

theorem localWins_iff_linux :
    LocalWins linuxImage defaultKnown.defaultDev linuxPaths.kernel ↔
      LocalKept ownDeviceConfig linuxImage defaultKnown.defaultDev :=
  localWins_iff linux_prompt rfl rfl rfl (by decide +kernel) (by decide +kernel) linux_run

/-- The kernel is looked for on the default device, not on that of its image. -/
theorem default_takes_all :
    (∃ after, getLoadPaths ownDeviceConfig (typing (str "Linux")) roomy defaultKnown = .ok linuxPaths after) ∧
      findImage (str "Linux") ownDeviceConfig.images = some (some linuxImage) ∧
      cfgGetStrgI linuxImage (str "device") = some (str "ata1/ata-disk@0") ∧
      ¬LocalWins linuxImage defaultKnown.defaultDev linuxPaths.kernel := by
  refine ⟨⟨_, linux_run⟩, rfl, rfl, fun wins => ?_⟩
  have device : linuxPaths.kernel.device = some (str "ata1/ata-disk@0") := wins.1
  exact absurd device (by decide +kernel)

end IQuik.Loader
