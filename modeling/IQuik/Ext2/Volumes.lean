import IQuik.Ext2.Paths

namespace IQuik.Ext2

open IQuik.Data IQuik.Program IQuik.Storage

/-! # File operations: the first half of `file.c` -/

/-- `path_t`. -/
structure Path where
  device : Str
  part : Nat
  path : Str
deriving DecidableEq, Repr

variable (machine : Machine)

def openExt2 (fuel : Nat) (device : Str) (partno : Nat) : FsProg Unit := do
  let oldWasMounted ← Prog.view fun fs : Fs => fs.part.mounted
  partOpen machine fuel device partno
  let mounted ← Prog.view fun fs : Fs => fs.part.mounted
  if mounted then pure ()
  else do
    if oldWasMounted then ext2fsClose
    ext2fsMount machine

def fileLen (fuel : Nat) (path : Path) : FsProg Nat := do
  openExt2 machine fuel path.device path.part
  ext2fsOpen machine fuel path.path

def fileLoad (fuel : Nat) (path : Path) : FillProg Unit := do
  let size ← Prog.onFirst (do
    openExt2 machine fuel path.device path.part
    ext2fsOpen machine fuel path.path)
  ext2fsRead machine size

def fileLs (fuel : Nat) (path : Path) : FsProg Unit := do
  openExt2 machine fuel path.device path.part
  ext2fsLs machine fuel path.path

end IQuik.Ext2
