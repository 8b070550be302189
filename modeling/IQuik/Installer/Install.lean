import IQuik.Data.Bytes
import IQuik.Data.Strings
import IQuik.Program.Outcome

namespace IQuik.Installer

open IQuik.Data IQuik.Program

/-! # The installer: `iquik.c`

What follows holds of an LP64 host, and every result about the installer has that
condition: `size_t`, `ssize_t` and `off_t` have 64 bits, and an `int` has 32. On a host
with an `off_t` of 32 bits, such as 32-bit PowerPC, the byte offsets of the installer may
wrap around.
-/

/-- A disk, or an image of one. -/
structure Device where
  size : Nat
  bytes : Image

/-- Stores the first `count` bytes of `contents` at `offset`. -/
def Device.store (device : Device) (offset count : Nat) (contents : Image) : Device where
  size := if count = 0 then device.size else max device.size (offset + count)
  bytes := fun index =>
    if offset ≤ index ∧ index < offset + count then contents (index - offset) else device.bytes index

/-- What the system answers to the installer, and the option `-T`. -/
structure Host where
  readable : Bool
  writable : Bool
  grants : Nat → Bool
  seeks : Nat → Bool
  /-- How much a `write` transfers: offset, length. -/
  transfers : Nat → Nat → Nat
  testMode : Bool

/-- The calls of `fatal`. -/
inductive Fatal where
  | cantOpen
  | readingBlock0
  | notMacFormatted
  | readingPartitionMap
  | noBootstrapPartition
  | cantOpenForWriting
  | cantOpenBootFile
  | cantOpenScript
  | cantAlloc
  | cantReadCode
  | cantReadSignature
  | badMagic
  | cantReadScript
  | cantSeek
  | cantWriteCode
  | readingEntry
  | seekError
  | writeError
deriving DecidableEq

abbrev InstallProg := Prog Fatal Device

variable (host : Host)

/-- `read` of 512 bytes at `offset`. -/
def readBlock (offset : Nat) (failure : Fatal) : InstallProg Image := fun device =>
  if offset + 512 ≤ device.size then .ok (fun index => device.bytes (offset + index)) device
  else .error failure device

/-- `do_write` at `offset`: how much was written. -/
def doWrite (offset count : Nat) (contents : Image) : InstallProg Nat := fun device =>
  if host.testMode then .ok count device
  else
    let written := min (host.transfers offset count) count
    .ok written (device.store offset written contents)

/-- What `read_sb` finds. -/
structure BootEntry where
  partIndex : Nat
  doff : Nat
  secsize : Nat
deriving DecidableEq

/-- `strcmp (mp->type, APPLE_BOOT_TYPE) == 0`. -/
def isBootstrap (mp : Image) : Bool := mp.list 48 16 == str "Apple_Bootstrap" ++ [0]

/-- The loop of `read_sb` from entry `part` on; `maxpart` is an `int`. -/
def readSbEntries (secsize : Nat) : (fuel part maxpart : Nat) → InstallProg BootEntry
  | 0, _, _ => Prog.unfinished
  | fuel + 1, part, maxpart =>
      if maxpart < 2 ^ 31 ∧ part ≤ maxpart then do
        let mp ← readBlock (part * secsize) .readingPartitionMap
        if mp.be16 0 ≠ 0x504d then Prog.fail .noBootstrapPartition
        else if part ≠ 1 ∧ maxpart ≠ mp.be32 4 then Prog.fail .noBootstrapPartition
        else if isBootstrap mp then
          pure { partIndex := part, doff := mp.be32 8 * (secsize / 512), secsize }
        else readSbEntries secsize fuel (part + 1) (if part = 1 then mp.be32 4 else maxpart)
      else Prog.fail .noBootstrapPartition

def readSb (fuel : Nat) : InstallProg BootEntry :=
  if host.readable then do
    let md ← readBlock 0 .readingBlock0
    if md.be16 0 ≠ 0x4552 then Prog.fail .notMacFormatted
    else readSbEntries (md.be16 2) fuel 1 1
  else Prog.fail .cantOpen

/-! # The boot block -/

/-- A file: its length is an `off_t`. -/
structure File where
  bytes : List UInt8
  small : bytes.length < 2 ^ 63

def prebootMagic : List UInt8 := [0x00, 0xB0, 0x07, 0xED]

/-- `rc > 0`, where the `int` `rc` is what `fread` returned. -/
def Positive (count : Nat) : Prop := 0 < count % 2 ^ 32 ∧ count % 2 ^ 32 < 2 ^ 31

instance (count : Nat) : Decidable (Positive count) := inferInstanceAs (Decidable (_ ∧ _))

/-- The bytes of a list, as the source of a store. -/
def listImage (bytes : List UInt8) : Image := fun index => bytes.getD index 0

/-- The script in `install_stage`, or `NULL`: `none` inside stands for a file
that cannot be opened. -/
abbrev Preboot := Option (Option File)

/-- `code_size` and `*stage_size`, as `size_t`. -/
def stageSizes (code : File) (script : Option File) : Nat × Nat :=
  match script with
  | some script =>
      let codeSize := (code.bytes.length + 2 ^ 64 - 4) % 2 ^ 64
      (codeSize, (codeSize + script.bytes.length + 1) % 2 ^ 64)
  | none => (code.bytes.length, code.bytes.length)

/-- The signature behind the code, and the script in its place. -/
def readScript (signature : List UInt8) (codeSize stageSize : Nat) (script : File) (buff : Buffer) :
    InstallProg Buffer := do
  let magic := signature.take 4
  if ¬Positive magic.length then Prog.fail .cantReadSignature
  else if magic ≠ prebootMagic then Prog.fail .badMagic
  else
    let script := script.bytes.take ((stageSize + 2 ^ 65 - codeSize - 1) % 2 ^ 64)
    if ¬Positive script.length then Prog.fail .cantReadScript
    else
      pure ((buff.store codeSize script.length (listImage script)).store (stageSize - 1) 1 fun _ => 0)

/-- What `install_stage` reads into its buffer. -/
def readStage (code : File) (script : Option File) (codeSize stageSize : Nat) : InstallProg Buffer :=
  let read := code.bytes.take codeSize
  let buff := Buffer.blank.store 0 read.length (listImage read)
  if ¬Positive read.length then Prog.fail .cantReadCode
  else
    match script with
    | some script => readScript (code.bytes.drop codeSize) codeSize stageSize script buff
    | none => pure buff

/-- `install_stage`, from the reading of the files on; it returns `*stage_size`. -/
def writeStage (code : File) (script : Option File) (doff : Nat) : InstallProg Nat :=
  let codeSize := (stageSizes code script).1
  let stageSize := (stageSizes code script).2
  if ¬host.grants stageSize then Prog.fail .cantAlloc
  else do
    let buff ← readStage code script codeSize stageSize
    let off := doff * 512
    if ¬host.seeks off then Prog.fail .cantSeek
    else do
      let written ← doWrite host off stageSize buff.image
      if written ≠ stageSize then Prog.fail .cantWriteCode else pure stageSize

def installStage (code : Option File) (preboot : Preboot) (doff : Nat) : InstallProg Nat :=
  if ¬host.writable then Prog.fail .cantOpenForWriting
  else
    match code, preboot with
    | none, _ => Prog.fail .cantOpenBootFile
    | some _, some none => Prog.fail .cantOpenScript
    | some code, some (some script) => writeStage host code (some script) doff
    | some code, none => writeStage host code none doff

/-! # The partition map entry -/

def be32Bytes (value : Nat) : List UInt8 :=
  [(value / 2 ^ 24).toUInt8, (value / 2 ^ 16).toUInt8, (value / 2 ^ 8).toUInt8, value.toUInt8]

/-- `image` with a field set. -/
def put (image : Image) (offset : Nat) (field : List UInt8) : Image := fun index =>
  if offset ≤ index ∧ index < offset + field.length then listImage field (index - offset) else image index

/-- The stores of `make_bootable` to the entry. -/
def bootFields (mp : Image) (stageSize loadBase : Nat) : List (Nat × List UInt8) :=
  [(88, be32Bytes (mp.be32 88 ||| 8)),
   (92, be32Bytes 0),
   (96, be32Bytes stageSize),
   (100, be32Bytes loadBase),
   (104, be32Bytes 0),
   (108, be32Bytes loadBase),
   (112, be32Bytes 0),
   (120, str "PowerPC" ++ List.replicate 9 0)]

def bootable (mp : Image) (stageSize loadBase : Nat) : Image :=
  (bootFields mp stageSize loadBase).foldl (fun mp field => put mp field.1 field.2) mp

def makeBootable (secsize partIndex stageSize loadBase : Nat) : InstallProg Unit :=
  if partIndex = 0 then pure ()
  else if ¬host.writable then Prog.fail .cantOpenForWriting
  else do
    let mp ← readBlock (partIndex * secsize) .readingEntry
    if ¬host.seeks (partIndex * secsize) then Prog.fail .seekError
    else do
      let written ← doWrite host (partIndex * secsize) 512 (bootable mp stageSize loadBase)
      if written ≠ 512 then Prog.fail .writeError else pure ()

/-- `main`, once the options are known. -/
def install (fuel : Nat) (code : Option File) (preboot : Preboot) : InstallProg Unit := do
  let found ← readSb host fuel
  let stageSize ← installStage host code preboot found.doff
  makeBootable host found.secsize found.partIndex stageSize 0x3e0000

end IQuik.Installer
