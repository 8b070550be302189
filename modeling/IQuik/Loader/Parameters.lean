import IQuik.Loader.Environment
import IQuik.Config.Parser

namespace IQuik.Loader

open IQuik.Data IQuik.Program IQuik.Config

/-! # Boot parameters: `get_params` and `get_load_paths` of `main.c`

What is printed is left out, and so is the table that a TAB shows. -/

def cmdLeng : Nat := 512

/-- What the user does at one prompt: the answer of `wait_for_key`, the keys
that `getchar` returns, and what `cmd_dispatch` makes of a command. -/
structure Console where
  key : Int
  keys : List Int
  command : Str → BootInfo → BootInfo

/-- The loop of `cmd_edit`; a line is over at its end, or when no key comes. -/
def editLine : (keys : List Int) → (line : Str) → Str
  | [], line => line
  | c :: keys, line =>
      if c = -1 ∨ c = 10 ∨ c = 13 then line
      else if c = 9 then editLine keys line
      else if c = 8 ∨ c = 0x7F then editLine keys line.dropLast
      else if 32 ≤ c ∧ line.length < cmdLeng - 1 then
        editLine keys (line ++ [(c % 256).toNat.toUInt8])
      else editLine keys line

/-- The line that is typed when `lastkey` came first. -/
def Console.line (console : Console) (lastkey : Int) : Str :=
  editLine (if lastkey = -1 then console.keys else lastkey :: console.keys) []

/-- `cmd_edit`; a line that starts with `!` is run as a command. -/
def cmdEdit (console : Console) (lastkey : Int) : BootProg (Option Str) := do
  let line := console.line lastkey
  if line.head? = some 33 then do
    Prog.update (console.command line)
    pure none
  else pure (some line)

/-- A user who types `line` at a prompt without a time limit. -/
def typing (line : Str) : Console where
  key := -1
  keys := line.map fun c => (c.toNat : Int)
  command := fun _ bi => bi

section Lookups

variable (config : Parser)

/-- `cfg_get_strg`; without an image, a global option. -/
def cfgStrg (image : Option Str) (item : String) : BootProg (Option Str) :=
  Prog.defined (cfgGetStrg config image (str item))

def cfgFlag (image : Option Str) (item : String) : BootProg Bool :=
  Prog.defined (cfgGetFlag config image (str item))

/-- `cfg_get_default`; the first image must have a name. -/
def cfgGetDefault : Option (Option Str) :=
  match cfgGetStrgI config.options (str "default"), config.images with
  | some label, _ => some (some label)
  | none, [] => some none
  | none, image :: _ => (imageName image).map some

/-! ## Kernel parameters -/

/-- An option with its value and a space, where it is set. -/
def withValue (option : String) : Option Str → Str
  | some value => str option ++ value ++ [32]
  | none => []

/-- `make_params`. `buffer` tells whether its static buffer is there, from this
call or from an earlier one. -/
def makeParams (buffer : Bool) (label : Option Str) (params : Str) : BootProg Str :=
  if buffer then do
    let literal ← cfgStrg config label "literal"
    match literal with
    | some p =>
        let text := if params = [] then p else if p = [] then params else p ++ [32] ++ params
        Prog.demand (text.length < 2048)
        pure text
    | none => do
        let root ← cfgStrg config label "root"
        let readOnly ← cfgFlag config label "read-only"
        let readWrite ← cfgFlag config label "read-write"
        let ramdisk ← cfgStrg config label "ramdisk"
        let append ← cfgStrg config label "append"
        let text := withValue "root=" root ++ (if readOnly then str "ro " else []) ++
          (if readWrite then str "rw " else []) ++ withValue "ramdisk=" ramdisk ++
          withValue "" append
        let pauseAfter ← cfgFlag config label "pause-after"
        Prog.update fun bi => { bi with pauseBeforeBoot := bi.pauseBeforeBoot || pauseAfter }
        let pauseMessage ← cfgStrg config label "pause-message"
        Prog.update fun bi => { bi with pauseMessage := pauseMessage.or bi.pauseMessage }
        Prog.demand ((text ++ params).length < 2048)
        pure (text ++ params)
  else Prog.fail .noMem

/-! ## The boot prompt -/

/-- What `get_params` hands on. -/
structure BootParams where
  kernel : Str
  initrd : Option Str
  params : Str
  curDev : EnvDev

/-- The kernel and the parameters that are there without any typing, only at
the first prompt. -/
def autoWords (bi : BootInfo) : Option (Option Str × Str) :=
  if bi.triedAuto then some (none, [])
  else
    let words := wordSplit bi.bootargs
    if words.1.isSome then some words
    else (cfgGetDefault config).map fun kernel => (kernel, words.2)

/-- How long to wait for a key, with -1 for not to wait. -/
def autoTimeout (bi : BootInfo) : Int :=
  if bi.triedAuto then -1
  else if (wordSplit bi.bootargs).1.isSome then 0
  else if bi.configValid then
    match cfgGetStrgI config.options (str "timeout") with
    | some q => if q = [] then -1 else (strtol q 0).1
    | none => -1
  else -1

/-- The key that ends the waiting. -/
def lastKey (console : Console) (bi : BootInfo) : Int :=
  if autoTimeout config bi = -1 then -1 else console.key

/-- The kernel and the parameters, from the prompt or without it. -/
def promptWords (console : Console) : BootProg (Option Str × Str) := do
  let auto ← Prog.view (autoWords config)
  let auto ← Prog.defined auto
  let lastkey ← Prog.view (lastKey config console)
  Prog.update fun bi => { bi with triedAuto := true }
  if lastkey = 10 then pure auto
  else do
    let line ← cmdEdit console lastkey
    match line with
    | none => Prog.fail .notReady
    | some line => pure (wordSplit (some line))

/-- `partition=`, as far as it is a decimal number. -/
def decimalPart (value : Str) : Option Nat :=
  let n := strtol value 10
  if n.2 ≠ 0 ∧ n.2 = value.length then some (unsigned n.1) else none

/-- The device and the partition of the label. -/
def labelDev (label : Option Str) : BootProg EnvDev := do
  let device ← cfgStrg config label "device"
  let partition ← cfgStrg config label "partition"
  let dev := { EnvDev.none with device := device }
  pure (((partition.bind decimalPart).map (envDevSetPart dev)).getD dev)

/-- The kernel of a label, the path `path` of the image. -/
def labelParams (buffer : Bool) (label : Option Str) (path : Str) (initrd : Option Str) (params : Str) :
    BootProg BootParams := do
  let curDev ← labelDev config label
  let own ← cfgStrg config label "initrd"
  let oldKernel ← cfgStrg config label "old-kernel"
  Prog.update fun bi => { bi with bootPre24 := oldKernel.isSome }
  let params ← makeParams config buffer label params
  pure { kernel := path, initrd := own.or initrd, params := params, curDev := curDev }

/-- The end of `get_params` without a label: an initrd may follow the kernel. -/
def typedParams (kernel initrd : Option Str) (params : Str) (curDev : EnvDev) : BootProg BootParams :=
  match kernel with
  | none => Prog.fail .notReady
  | some kernel =>
      let params := chomp params
      if params.take 3 = str "-- " then
        pure { kernel := kernel, initrd := initrd, params := params.drop 3, curDev := curDev }
      else
        let words := wordSplit (some params)
        pure { kernel := kernel, initrd := words.1, params := words.2, curDev := curDev }

/-- `get_params` once the words are there. -/
def paramsFrom (buffer : Bool) (words : Option Str × Str) : BootProg BootParams := do
  let valid ← Prog.view BootInfo.configValid
  if valid then do
    let initrd ← cfgStrg config none "initrd"
    let image ← cfgStrg config words.1 "image"
    match image with
    | none => typedParams words.1 initrd words.2 EnvDev.none
    | some path =>
        if path = [] then typedParams words.1 initrd words.2 EnvDev.none
        else do
          let named ← labelParams config buffer words.1 path initrd words.2
          if words.1.isSome then pure named
          else typedParams (some named.kernel) named.initrd named.params named.curDev
  else typedParams words.1 none words.2 EnvDev.none

/-- `get_params`, with `*params` and `*cur_dev` empty before the call. -/
def getParams (console : Console) (buffer : Bool) : BootProg BootParams := do
  let words ← promptWords config console
  paramsFrom config buffer words

end Lookups

end IQuik.Loader
