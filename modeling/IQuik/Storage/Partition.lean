import IQuik.Storage.State

namespace IQuik.Storage

open IQuik.Data IQuik.Program

/-! # Disks and partitions: `disk.c` and `part.c` -/

variable (machine : Machine)

/-- The firmware call of `prom_open`. -/
def openCall (device : Str) : FsProg Nat := do
  let call ← Prog.view Fs.calls
  Prog.update fun fs => { fs with calls := fs.calls + 1 }
  match machine.openDevice call device with
  | some handle => do
      Prog.update fun fs => { fs with handles := handle :: fs.handles }
      pure handle
  | none => Prog.fail .ofOpen

/-- `disk_open`, which is `prom_open`. -/
def diskOpen (device : Str) : FsProg Nat :=
  if machine.nwFullDisk then do
    malloc machine (device.length + 3)
    openCall machine (device ++ str ":0")
  else openCall machine device

/-- What `disk_close` does. -/
def diskClosed (dev : Nat) (fs : Fs) : Fs := { fs with handles := fs.handles.erase dev }

/-- `disk_read`. -/
def diskRead (dev nbytes offset : Nat) : FsProg Delivery := fun fs =>
  if nbytes = 0 then .ok { count := 0, bytes := fun _ => 0 } fs
  else .ok (machine.read fs.calls dev offset nbytes) { fs with calls := fs.calls + 1 }

/-- Reads one whole sector at a byte offset. -/
def readSector (dev offset : Nat) : FsProg Image := do
  let answer ← diskRead machine dev 512 offset
  if answer.count = 512 then pure answer.bytes else Prog.fail .devShortRead

/-- Where a partition lies. -/
structure Extent where
  start : Nat
  len : Nat

/-- The entry `read_mac_partition` is looking for, or for `part = 0` the first
one that is bootable on this processor. -/
def macEntryWanted (part upart : Nat) (entry : Image) : Bool :=
  part == upart ||
    (part == 0 && (entry.be32 88 / 8 % 2 == 1) &&
      (entry.list 120 8).map tolower == str "powerpc" ++ [0])

def macExtent (secsize : Nat) (entry : Image) : Extent :=
  { start := entry.be32 8 * secsize, len := entry.be32 12 * secsize }

/-- The loop of `read_mac_partition` from entry `i` on. -/
def readMacEntries (dev part secsize : Nat) : (fuel i blocksInMap : Nat) → FsProg Extent
  | 0, _, _ => Prog.unfinished
  | fuel + 1, i, blocksInMap =>
      if i ≤ blocksInMap then do
        let entry ← readSector machine dev (i * secsize)
        if entry.be16 0 ≠ 0x504d then Prog.fail .partNotFound
        else
          let blocksInMap := if i = 1 then entry.be32 4 else blocksInMap
          if macEntryWanted part i entry then pure (macExtent secsize entry)
          else readMacEntries dev part secsize fuel ((i + 1) % 2 ^ 32) blocksInMap
      else Prog.fail .partNotFound

def readMacPartition (fuel dev part : Nat) : FsProg Extent := do
  let block ← readSector machine dev 0
  if block.be16 0 ≠ 0x4552 then Prog.fail .partNotMac
  else readMacEntries machine dev part (block.be16 2) fuel 1 1

/-- The byte offset of the table entry the loop of `read_dos_partition` stops
at. For `part = 0` the counter and the pointer wrap around. -/
def dosEntryOffset (part : Nat) : Nat := (0x1be + 16 * ((part + (2 ^ 32 - 1)) % 2 ^ 32)) % 2 ^ 32

def readDosPartition (dev part : Nat) : FsProg Extent := do
  let block ← readSector machine dev 0
  if block 0x1fe ≠ 0x55 ∨ block 0x1ff ≠ 0xaa then Prog.fail .partNotDos
  else if 4 ≤ part then Prog.fail .partNotFound
  else
    let d := dosEntryOffset part
    pure { start := block.le32 (d + 8) * 512 % 2 ^ 32, len := block.le32 (d + 12) * 512 % 2 ^ 32 }

/-- `strcmp (device, part->devname) == 0`. A name of 512 bytes or more was
stored without its NUL, and comparing with all of it reads past the array. -/
def sameDevice (device devname : Str) : Option Bool :=
  if devname.length < 512 then some (device == devname)
  else if device.take 512 = devname then none
  else some false

def partClose : FsProg Unit := do
  let part ← Prog.view Fs.part
  Prog.update fun fs => { diskClosed part.dev fs with part := .zero }

/-- The partition table, Macintosh or else DOS. -/
def readTable (fuel dev part : Nat) : FsProg Extent := do
  match ← Prog.attempt (readMacPartition machine fuel dev part) with
  | .ok extent => pure extent
  | .error .partNotMac =>
      Prog.mapError (fun err => if err = .partNotDos then .partNotPartitioned else err)
        (readDosPartition machine dev part)
  | .error err => Prog.fail err

/-- `part_open` does nothing: the partition is open already. -/
def alreadyOpen (device : Str) (partno : Nat) (part : Part) : FsProg Bool :=
  if part.valid ∧ part.partno = partno then Prog.defined (sameDevice device part.devname)
  else pure false

/-- The record after `part_open` has found the partition. -/
def Part.found (part : Part) (device : Str) (partno dev : Nat) (extent : Extent) : Part :=
  { part with partno, dev, start := extent.start, len := extent.len, valid := true,
              devname := device.take 512 }

/-- `part_open` with no partition open: looks for the partition and stores
where it lies. -/
def partFind (fuel : Nat) (device : Str) (partno : Nat) : FsProg Unit := do
  let dev ← diskOpen machine device
  let extent ← Prog.onError (diskClosed dev) (readTable machine fuel dev partno)
  Prog.update fun fs => { fs with part := fs.part.found device partno dev extent }

def partOpen (fuel : Nat) (device : Str) (partno : Nat) : FsProg Unit := do
  let part ← Prog.view Fs.part
  if ← alreadyOpen device partno part then pure ()
  else do
    if part.valid then partClose
    partFind machine fuel device partno

/-- `part_read` into a buffer, from its index `place` on. A short read has stored
what was delivered. -/
def partRead (sector byteOffset byteLen place : Nat) : FillProg Unit := do
  let part ← Prog.view fun state => state.1.part
  let off := sector * 512
  if part.len ≤ off + byteOffset + byteLen then Prog.fail .partBeyond
  else do
    let answer ← Prog.onFirst (diskRead machine part.dev byteLen (off + part.start + byteOffset))
    Prog.update fun state => (state.1, state.2.store place (answer.stored byteLen) answer.bytes)
    if answer.count = byteLen then pure () else Prog.fail .devShortRead

end IQuik.Storage
