import IQuik.Ext2.Loads

namespace IQuik.Ext2

open IQuik.Data IQuik.Program IQuik.Storage

/-! # Histories of file operations

A run of the loader calls `file_len`, `file_load` and `file_ls` in any order. The
caches that the calls leave behind know only sector numbers, and nothing clears
them when another partition is opened.
-/

/-- A call, with the buffer a load stores into. -/
inductive FileOp where
  | len (path : Path)
  | load (path : Path) (buffer : Buffer)
  | ls (path : Path)

def FileOp.path : FileOp → Path
  | .len path => path
  | .load path _ => path
  | .ls path => path

variable {machine : Machine} {image : Nat → Image} {fuel : Nat}

/-- The globals after a call, if it returns. -/
def FileOp.run (machine : Machine) (fuel : Nat) : FileOp → Fs → Option Fs
  | .len path, fs => (fileLen machine fuel path fs).state?
  | .load path buffer, fs => (fileLoad machine fuel path (fs, buffer)).state?.map Prod.fst
  | .ls path, fs => (fileLs machine fuel path fs).state?

/-- The states that the loader comes to by any calls that return. -/
inductive History (machine : Machine) (fuel : Nat) : Fs → Prop
  | startUp : History machine fuel .startUp
  | call {fs after : Fs} (op : FileOp) (history : History machine fuel fs)
      (returned : op.run machine fuel fs = some after) : History machine fuel after

end IQuik.Ext2
