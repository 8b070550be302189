import IQuik.Config.RoundTrip
import IQuik.Loader.Quirks
import IQuik.Loader.ShowFile

namespace IQuik.Loader

open IQuik.Data IQuik.Program IQuik.Config IQuik.Storage IQuik.Ext2

/-! # The configuration file: `load_config` -/

/-- What the loader keeps: the globals of the file code, those of `prom.c` and `main.c`, and those
of the parser. -/
structure Setup where
  fs : Fs
  globals : Globals
  config : Parser

abbrev SetupProg := Prog QuikErr Setup

def Setup.putFs (fs : Fs) (setup : Setup) : Setup := { setup with fs }

/-- The array `attempts`. -/
def configAttempts (configFile : Str) : List Str :=
  [configFile, str "/boot/iquik.conf", str "/boot/quik.conf", str "/boot/iquik.conf", str "/quik.conf"]

section Files

variable (machine : Storage.Machine) (fuel : Nat)

/-- The loop over `attempts`, with the partition of `path` set. -/
def firstLength (device : Str) (part : Nat) : List Str → FsProg (Path × Nat)
  | [] => Prog.fail .configNotFound
  | name :: names => do
      let path : Path := { device := device, part := part, path := name }
      let len ← Prog.attempt (fileLen machine fuel path)
      match len with
      | .ok len => pure (path, len)
      | .error _ => firstLength device part names

/-- What is in `buf` once `file_load` has returned; `garbage` was there before. -/
def loadBuf (garbage : Nat → UInt8) (path : Path) (len : Nat) : FsProg (List UInt8) := do
  malloc machine len
  let buf ← Prog.scratch .blank (fileLoad machine fuel path)
  pure ((List.range len).map (messageCells garbage buf))

/-- `load_config` up to `cfg_parse`. A null pointer in the place of the first name would end the
loop with no path at all. -/
def readConfig (garbage : Nat → UInt8) (bi : BootInfo) : FsProg (List UInt8) :=
  if bi.defaultDev.isValid then do
    let device ← Prog.defined bi.defaultDev.device
    let configFile ← Prog.defined bi.configFile
    let found ← firstLength machine fuel device bi.defaultDev.part (configAttempts configFile)
    loadBuf machine fuel garbage found.1 found.2
  else Prog.fail .envDefaultBad

/-- `cfg_parse` with the heap of the loader. What it returns decides about a message only. -/
def parseBuf (buf : List UInt8) : SetupProg PUnit := fun setup =>
  let parsed := fun config : Parser => { setup with
    config
    fs.mallocs := setup.fs.mallocs + config.requests.length }
  match cfgParse (fun request => machine.grants (setup.fs.mallocs + request)) buf fuel setup.config with
  | .ok _ config => .ok ⟨⟩ (parsed config)
  | .error _ config => .ok ⟨⟩ (parsed config)
  | .fault => .fault
  | .undefined => .undefined
  | .unfinished => .unfinished

/-- What `load_config` takes over from the options for all images. -/
def Globals.configured (globals : Globals) (option : String → Option Str) : Globals :=
  let dev := { globals.bi.defaultDev with device := (option "device").or globals.bi.defaultDev.device }
  { globals with
    prom.interpreted := globals.prom.interpreted ++ (option "init-code").toList
    bi.configValid := true
    bi.defaultDev := (((option "partition").bind decimalPart).map (envDevSetPart dev)).getD dev
    bi.pauseMessage := (option "pause-message").or globals.bi.pauseMessage }

def Setup.option (setup : Setup) (item : String) : Option Str := cfgGetStrgI setup.config.options (str item)

/-- The file of `message` is shown, if that is possible. -/
def showMessage (garbage : Nat → UInt8) : SetupProg PUnit := do
  let message ← Prog.view fun setup : Setup => setup.option "message"
  let defaultDev ← Prog.view fun setup : Setup => setup.globals.bi.defaultDev
  match message with
  | none => pure ⟨⟩
  | some p => do
      let _ ← Prog.attempt (Prog.focus (fun setup : Setup => showing setup.fs [])
        (fun shown setup => setup.putFs shown.1.1) (fileCmdCat machine fuel defaultDev garbage p))
      pure ⟨⟩

def loadConfig (garbage : Nat → UInt8) : SetupProg PUnit := do
  let bi ← Prog.view fun setup : Setup => setup.globals.bi
  let buf ← Prog.focus Setup.fs Setup.putFs (readConfig machine fuel garbage bi)
  parseBuf machine fuel buf
  Prog.update fun setup => { setup with globals := setup.globals.configured setup.option }
  showMessage machine fuel garbage

end Files

/-! ## A configuration is read from its file -/

section Reading

variable {machine : Storage.Machine} {fuel : Nat} {garbage : Nat → UInt8} {config : Configuration}
  {setup after : Setup} {fs : Fs}

theorem configured_congr {option other : String → Option Str} (globals : Globals)
    (same : ∀ item, str item ∈ optionNames → option item = other item) :
    globals.configured option = globals.configured other := by
  have device := same "device" (by decide +kernel)
  have partition := same "partition" (by decide +kernel)
  have initCode := same "init-code" (by decide +kernel)
  have pauseMessage := same "pause-message" (by decide +kernel)
  rw [Globals.configured, Globals.configured, device, partition, initCode, pauseMessage]

/-- Showing a file leaves the globals and the configuration, whatever comes of it. -/
theorem showMessage_keeps (returned : (showMessage machine fuel garbage setup).state? = some after) :
    showMessage machine fuel garbage setup = .ok ⟨⟩ after ∧ after.globals = setup.globals ∧
      after.config = setup.config := by
  rw [showMessage, Prog.view_bind, Prog.view_bind] at returned ⊢
  cases message : setup.option "message" with
  | none =>
      rw [message] at returned
      obtain rfl := Option.some.inj returned
      exact ⟨rfl, rfl, rfl⟩
  | some p =>
      rw [message] at returned
      have ended := Prog.ignore_state?.symm.trans returned
      have kept : Prog.Keeps (fun before after : Setup => after.globals = before.globals ∧ after.config = before.config)
          (Prog.focus (fun setup : Setup => showing setup.fs []) (fun shown setup => setup.putFs shown.1.1)
            (fileCmdCat machine fuel setup.globals.bi.defaultDev garbage p)) :=
        Prog.Keeps.focus (fun _ _ _ => trivial) fun _ _ _ => ⟨rfl, rfl⟩
      exact ⟨Prog.ignore_eq_ok.mpr ended, kept setup after ended⟩

/-- The value of an option for all images. -/
def optionFor (config : Configuration) (item : String) : Option Str := config.global (str item)

/-- The loader has taken over what the configuration says. -/
structure Obeys (config : Configuration) (before after : Setup) : Prop where
  stored : config.Stored after.config
  globals : after.globals = before.globals.configured (optionFor config)

/-- The text of a configuration is parsed to its end. -/
theorem parseBuf_text (setup : Setup) (fresh : setup.config = .fresh) (ordinary : config.Ordinary)
    (granted : Granted (fun request => machine.grants (setup.fs.mallocs + request)) config.requests)
    (enough : 2 * config.text.length + 1 < fuel) :
    ∃ parser, config.Stored parser ∧ parseBuf machine fuel config.text setup = .ok ⟨⟩ { setup with
      config := parser
      fs.mallocs := setup.fs.mallocs + parser.requests.length } := by
  obtain ⟨parser, run, requests, stored⟩ := parseRoomy_stored ordinary enough
  have all : ∀ after ∈ (parseRoomy config.text fuel .fresh).state?,
      Granted (fun request => machine.grants (setup.fs.mallocs + request)) after.requests := by
    rw [run]
    rintro after ⟨⟩
    rwa [requests]
  refine ⟨parser, stored, ?_⟩
  rw [parseBuf, fresh, cfgParse, if_pos all, run]

/-- A configuration in the file that is found is obeyed. Only the showing of `message` may keep
`load_config` from returning. -/
theorem config_obeyed (fresh : setup.config = .fresh) (ordinary : config.Ordinary)
    (read : readConfig machine fuel garbage setup.globals.bi setup.fs = .ok config.text fs)
    (granted : Granted (fun request => machine.grants (fs.mallocs + request)) config.requests)
    (enough : 2 * config.text.length + 1 < fuel) :
    (optionFor config "message" = none →
      ∃ after, loadConfig machine fuel garbage setup = .ok ⟨⟩ after) ∧
    ∀ after, (loadConfig machine fuel garbage setup).state? = some after →
      loadConfig machine fuel garbage setup = .ok ⟨⟩ after ∧ Obeys config setup after := by
  have focused : Prog.focus Setup.fs Setup.putFs (readConfig machine fuel garbage setup.globals.bi) setup =
      .ok config.text (setup.putFs fs) := Prog.focus_eq_ok.mpr ⟨fs, read, rfl⟩
  obtain ⟨parser, stored, parsed⟩ := parseBuf_text (setup.putFs fs) fresh ordinary granted enough
  have same : ∀ item, str item ∈ optionNames → cfgGetStrgI parser.options (str item) = optionFor config item :=
    fun item member => stored.globals (str item) member
  have run : loadConfig machine fuel garbage setup = showMessage machine fuel garbage
      { fs := { fs with mallocs := fs.mallocs + parser.requests.length }
        globals := setup.globals.configured (optionFor config)
        config := parser } := by
    rw [loadConfig, Prog.view_bind, Prog.bind_run_ok focused, Prog.bind_run_ok parsed, Prog.update_bind,
      ← configured_congr _ same]
    rfl
  rw [run]
  refine ⟨fun silent => ?_, fun after returned => ?_⟩
  · have nothing : cfgGetStrgI parser.options (str "message") = none :=
      (same "message" (by decide +kernel)).trans silent
    rw [showMessage, Prog.view_bind, Prog.view_bind]
    simp only [Setup.option, nothing]
    exact ⟨_, rfl⟩
  · obtain ⟨shown, globals, kept⟩ := showMessage_keeps returned
    exact ⟨shown, kept ▸ stored, globals⟩

end Reading

end IQuik.Loader
