import IQuik.Data.Bytes
import IQuik.Loader.LoadPaths

namespace IQuik.Loader

open IQuik.Data IQuik.Program

/-! # Loading a kernel and an initrd

`try_load_loop` from the paths on, with `load_image`, `elf_parse` and the
claims of `prom.c`. Addresses and lengths are 32-bit numbers. -/

def loadBase : Nat := 0x800000
def promClaimMaxAddr : Nat := 0x10000000
def size1M : Nat := 0x100000
def size4K : Nat := 0x1000

/-- `(void *) -1`. -/
def badAddress : Nat := 0xFFFFFFFF

def wrap (n : Nat) : Nat := n % 0x100000000

/-- An address and a size. -/
abbrev Range := Nat × Nat

/-- The memory that the firmware manages: the ranges in use, and what one call
of `try_load_loop` was granted and has released. -/
structure Claims where
  inUse : List Range
  granted : List Range
  released : List Range
  initrdBase : Nat
  initrdLen : Nat
deriving DecidableEq

/-- Before a call, with the ranges `used` in use. -/
def Claims.start (used : List Range) : Claims where
  inUse := used
  granted := []
  released := []
  initrdBase := 0
  initrdLen := 0

def Claims.claim (claims : Claims) (range : Range) : Claims :=
  { claims with inUse := range :: claims.inUse, granted := claims.granted ++ [range] }

def Claims.release (claims : Claims) (range : Range) : Claims :=
  { claims with inUse := claims.inUse.erase range, released := claims.released ++ [range] }

abbrev LoadProg := Prog QuikErr Claims

/-- A file as the loader meets it: what `file_len` and `file_load` return. -/
structure File where
  len : Except QuikErr UInt32
  load : Except QuikErr Unit

/-- How the method calls that `PROM_CLAIM_WORK_AROUND` makes for a claim come back.
They do not name a method of the firmware, so none of them claims anything. -/
inductive MethodCalls where
  /-- The first one fails, or `result` holds -1. -/
  | noMemory
  /-- The second one fails, and `release` is called for the memory of the first. -/
  | noMapping
  | mapped
deriving DecidableEq

/-- What one call meets: which ranges the firmware grants, given those in use,
the files, and the memory once the kernel is in it. With the bit
`PROM_CLAIM_WORK_AROUND` of `prom_flags` nothing is granted, and method calls are
made instead. `fuel` bounds the loops over places and pages; the one over pages need
not end. -/
structure Surroundings where
  grant : List Range → Range → Bool
  workAround : Option (List Range → Range → MethodCalls)
  files : FsPath → File
  memory : Image
  fuel : Nat

variable (around : Surroundings)

/-- `prom_claim`, with no alignment asked for. -/
def promClaim (virt size : Nat) : LoadProg Nat := do
  let used ← Prog.view Claims.inUse
  match around.workAround with
  | some calls =>
      match calls used (virt, size) with
      | .noMemory => pure badAddress
      | .noMapping => do
          Prog.update fun claims => claims.release (virt, size)
          pure badAddress
      | .mapped => pure virt
  | none =>
      if around.grant used (virt, size) then do
        Prog.update fun claims => claims.claim (virt, size)
        pure virt
      else pure badAddress

/-- `prom_release`. With the work-around the range is released by the MMU and by the
memory as well. -/
def promRelease (virt size : Nat) : LoadProg PUnit := do
  if around.workAround.isSome then do
    Prog.update fun claims => claims.release (virt, size)
    Prog.update fun claims => claims.release (virt, size)
  Prog.update fun claims => claims.release (virt, size)

def alignUp (addr align : Nat) : Nat := wrap (addr + (align - 1)) / align * align

/-- The loop of `prom_claim_chunk`. -/
def claimFrom (size : Nat) : (fuel : Nat) → (addr : Nat) → LoadProg Nat
  | 0, _ => Prog.unfinished
  | fuel + 1, addr =>
      if addr ≤ promClaimMaxAddr then do
        let found ← promClaim around addr size
        if found ≠ badAddress then pure found else claimFrom size fuel (wrap (addr + size1M))
      else pure badAddress

def promClaimChunk (virt size : Nat) : LoadProg Nat :=
  claimFrom around size around.fuel (alignUp virt size1M)

/-- The loop of `prom_ensure_claimed`, which does not look at what it gets. -/
def ensureFrom (limit : Nat) : (fuel : Nat) → (addr : Nat) → LoadProg PUnit
  | 0, _ => Prog.unfinished
  | fuel + 1, addr =>
      if addr < limit then do
        let _ ← promClaim around addr size4K
        ensureFrom limit fuel (wrap (addr + size4K))
      else pure ⟨⟩

def promEnsureClaimed (virt size : Nat) : LoadProg PUnit :=
  ensureFrom around (wrap (virt + size)) around.fuel virt

/-! ## The kernel image -/

/-- `load_state_t`. -/
structure LoadState where
  buf : Nat
  linkedBase : Nat
  textOffset : Nat
  textLen : Nat
  entry : Nat
deriving DecidableEq

def addrMask (addr : Nat) : Nat := addr % 0x10000000

/-- What the program headers say: where the code starts, and its length. -/
structure Extent where
  off : Nat
  len : Nat
  linkedBase : Nat
deriving DecidableEq

/-- The loop of `elf_parse` over the program headers from `p` on. -/
def programHeaders (memory : Image) : (count : Nat) → (p : Nat) → Extent → Extent
  | 0, _, extent => extent
  | count + 1, p, extent =>
      let type := memory.be32 p
      let offset := memory.be32 (p + 4)
      let vaddr := memory.be32 (p + 8)
      let memsz := memory.be32 (p + 20)
      programHeaders memory count (wrap (p + 32))
        (if type ≠ 1 ∨ offset = 0 then extent
         else if extent.len = 0 then { off := offset, len := memsz, linkedBase := addrMask vaddr }
         else { extent with len := wrap (offset + memsz + (0x100000000 - extent.off)) })

/-- What `elf_parse` makes of the header in front of `loadBuf`. -/
def elfExtent (memory : Image) (loadBuf : Nat) : Except QuikErr Extent :=
  if memory.list loadBuf 4 = [0x7F, 69, 76, 70] then
    if memory (loadBuf + 4) = 1 ∧ memory (loadBuf + 5) = 2 then
      let extent := programHeaders memory (memory.be16 (loadBuf + 44))
        (wrap (loadBuf + memory.be32 (loadBuf + 28))) { off := 0, len := 0, linkedBase := 0 }
      if extent.len = 0 then .error .elfNotLoadable else .ok extent
    else .error .elfWrong
  else .error .elfNot

def elfParse (loadBuf loadBufLen : Nat) : LoadProg LoadState :=
  match elfExtent around.memory loadBuf with
  | .error code => Prog.fail code
  | .ok extent => do
      -- the sum has 64 bits, and the size that is passed on has 32
      let needed := extent.len + extent.off
      if loadBufLen < needed then
        promEnsureClaimed around (wrap (loadBuf + loadBufLen)) (wrap (needed - loadBufLen))
      pure { buf := loadBuf, linkedBase := extent.linkedBase, textOffset := extent.off,
             textLen := extent.len, entry := addrMask (around.memory.be32 (loadBuf + 24)) }

/-! ## One attempt -/

/-- What `load_image` returns, and what it leaves in `*where` and `*len`. -/
structure Loaded where
  result : Except QuikErr Unit
  place : Nat
  len : Nat

def loadImage (file : File) (start : Nat) : LoadProg Loaded :=
  match file.len with
  | .error code => pure { result := .error code, place := start, len := 0 }
  | .ok size => do
      let len := size.toNat
      let place ← promClaimChunk around start len
      if place = badAddress then pure { result := .error .noMem, place := place, len := len }
      else
        match file.load with
        | .ok _ => pure { result := .ok (), place := place, len := len }
        | .error code => do
            promRelease around place len
            pure { result := .error code, place := place, len := len }

/-- The label `out` of `try_load_loop`. -/
def loadFails (kernel : Loaded) (code : QuikErr) : LoadProg LoadState := do
  if kernel.place ≠ 0 then promRelease around kernel.place kernel.len
  Prog.fail code

/-- The initrd of an attempt. -/
def loadInitrd (kernel : Loaded) (image : LoadState) : Option FsPath → LoadProg LoadState
  | none => do
      Prog.update fun claims => { claims with initrdBase := 0, initrdLen := 0 }
      pure image
  | some path => do
      let initrd ← loadImage around (around.files path) (wrap (kernel.place + kernel.len))
      match initrd.result with
      | .error code => loadFails around kernel code
      | .ok _ => do
          Prog.update fun claims =>
            { claims with initrdBase := initrd.place, initrdLen := initrd.len }
          pure image

/-- `try_load_loop`, where `paths` is what `get_load_paths` returned. -/
def loadPaths (paths : Except QuikErr LoadPaths) : LoadProg LoadState :=
  match paths with
  | .error code => Prog.fail code
  | .ok paths => do
      let kernel ← loadImage around (around.files paths.kernel) loadBase
      match kernel.result with
      | .error code => loadFails around kernel code
      | .ok _ => do
          let image ← Prog.attempt (elfParse around kernel.place kernel.len)
          match image with
          | .error code => loadFails around kernel code
          | .ok image => loadInitrd around kernel image paths.initrd

end IQuik.Loader
