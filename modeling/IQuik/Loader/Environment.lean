import IQuik.Data.Errors
import IQuik.Data.Strings
import IQuik.Program.Outcome

namespace IQuik.Loader

open IQuik.Data IQuik.Program

/-! # The boot environment: `env.c` -/

/-- `env_dev_t`. -/
structure EnvDev where
  device : Option Str
  part : Nat
  partValid : Bool
deriving DecidableEq

/-- What the loader keeps of `boot_info_t`, with one field for each flag. -/
structure BootInfo where
  configValid : Bool
  pauseBeforeBoot : Bool
  debugBeforeBoot : Bool
  triedAuto : Bool
  bootPre24 : Bool
  shimOf : Bool
  withPreboot : Bool
  configFile : Option Str
  defaultDev : EnvDev
  bootargs : Option Str
  pauseMessage : Option Str
deriving DecidableEq

/-- No device and no partition. -/
def EnvDev.none : EnvDev where
  device := Option.none
  part := 0
  partValid := false

/-- `bi` when the loader starts. -/
def BootInfo.start : BootInfo where
  configValid := false
  pauseBeforeBoot := false
  debugBeforeBoot := false
  triedAuto := false
  bootPre24 := false
  shimOf := false
  withPreboot := false
  configFile := none
  defaultDev := EnvDev.none
  bootargs := none
  pauseMessage := none

abbrev BootProg := Prog QuikErr BootInfo

def envSz : Nat := 512

/-- A number as an `unsigned`. -/
def unsigned (n : Int) : Nat := (n % 0x100000000).toNat

def envDevSetPart (dp : EnvDev) (part : Nat) : EnvDev := { dp with part := part, partValid := true }

/-- `env_dev_is_valid` returns no error. -/
def EnvDev.isValid (dp : EnvDev) : Bool := dp.device.isSome && dp.partValid

/-- `env_dev_update_from_default`; the result is the new `*cur_dev`. -/
def envDevUpdateFromDefault : BootProg EnvDev := do
  let defaultDev ← Prog.view BootInfo.defaultDev
  if defaultDev.isValid then pure defaultDev else Prog.fail .envDefaultBad

/-- `strchr (s, c)`: the string from the first `c` on, where there is one. -/
def fromFirst (c : UInt8) (s : Str) : Str := s.dropWhile (· ≠ c)

/-- What follows the first colon. -/
def afterColon (s : Str) : Str := (fromFirst 58 s).tail

/-- The end of `env_init`, for the default device `device`: a colon ends it,
and a partition and a path may follow. -/
def BootInfo.setDevice (bi : BootInfo) (device : Str) : BootInfo :=
  if 58 ∈ device then
    let p := afterColon device
    let dev := { bi.defaultDev with device := some (device.takeWhile (· ≠ 58)) }
    { bi with
      defaultDev := envDevSetPart dev (unsigned (strtol p 0).1)
      configFile := some (if 47 ∈ p then fromFirst 47 p else str "/etc/quik.conf") }
  else { bi with defaultDev.device := some device }

/-- No device is named, or the one of `boot-file` is asked for. -/
def fallsBack : Option Str → Bool
  | none => true
  | some device => device.take 2 == str "--"

/-- `env_init`, for the values of the properties `bootargs` and `boot-file`,
empty where a property is missing. `room` tells whether both buffers are
granted; a value without a NUL in its buffer is read past the end. -/
def envInit (bootargs bootFile : Str) (room : Bool) : BootProg PUnit :=
  if room then do
    Prog.demand (bootargs.length < envSz ∧ bootFile.length < envSz)
    let preboot ← Prog.view BootInfo.withPreboot
    let words := wordSplit (some (if preboot then bootFile else bootargs))
    Prog.update fun bi => { bi with defaultDev.device := words.1, bootargs := some words.2 }
    if fallsBack words.1 then
      if preboot then Prog.fail .envPrebootBad
      else Prog.update fun bi => bi.setDevice (chomp bootFile)
    else do
      let device ← Prog.defined words.1
      Prog.update fun bi => bi.setDevice device
  else Prog.fail .noMem

end IQuik.Loader
