import IQuik.Ext2.Reading

namespace IQuik.Ext2

open IQuik.Data IQuik.Program IQuik.Storage

/-! # Directories and paths: the second half of `ext2fs.c` -/

variable (machine : Machine)

/-- The file types of directory entries; other values are `FILETYPE_UNKNOWN`. -/
inductive FileType where
  | unknown
  | reg
  | directory
  | symlink
deriving DecidableEq, Repr

/-- The type a directory entry states, if it states one. -/
def FileType.ofDirent (filetype : UInt8) : FileType :=
  if filetype = 2 then .directory
  else if filetype = 7 then .symlink
  else if filetype = 1 then .reg
  else .unknown

/-- The type in the mode of an inode. -/
def FileType.ofMode (mode : Nat) : FileType :=
  if mode / 4096 % 16 = 4 then .directory
  else if mode / 4096 % 16 = 10 then .symlink
  else if mode / 4096 % 16 = 8 then .reg
  else .unknown

/-- The string in the `width` bytes from `index` on, with a NUL behind them. -/
def bufferString (buffer : Buffer) : (index width : Nat) → Option Str
  | _, 0 => some []
  | index, width + 1 =>
      match buffer index with
      | none => none
      | some byte =>
          if byte = 0 then some []
          else (bufferString buffer (index + 1) width).map (byte :: ·)

/-- `strcmp (filename, name) == 0` for the name in the `width` bytes from
`index` on. It stops at the first difference. -/
def nameMatches (buffer : Buffer) : (index width : Nat) → Str → Option Bool
  | _, 0, name => some name.isEmpty
  | index, width + 1, name =>
      match buffer index, name with
      | none, _ => none
      | some byte, [] => some (byte == 0)
      | some byte, c :: rest =>
          if byte = c then nameMatches buffer (index + 1) width rest else some false

/-- A directory entry that has a name. -/
structure Dirent where
  namelen : Nat
  filename : Buffer
  node : Node
  type : FileType

/-- The node of a directory entry and its type. An entry that does not state a
type has its inode read for it. -/
def direntNode (data : Ext2Data) (ino : Nat) (filetype : UInt8) : FsProg (Node × FileType) := do
  malloc machine 140
  if filetype ≠ 0 then
    pure ({ data, ino, inode := { raw := fun _ => 0 }, inodeRead := false }, .ofDirent filetype)
  else do
    let inode ← ext2fsReadInode machine data ino
    pure ({ data, ino, inode, inodeRead := true }, .ofMode inode.mode)

/-- The directory entry at `fpos`: its length, and the rest if it has a name. -/
def direntAt (dir : Node) (fpos : Nat) : FsProg (Nat × Option Dirent) := do
  let dirent ← readLocal machine 8 dir fpos 8
  let namelen ← Prog.defined (dirent 6)
  if namelen ≠ 0 then do
    let filename ← readLocal machine (namelen.toNat + 1) dir ((fpos + 8) % 2 ^ 32) namelen.toNat
    let ino ← Prog.defined (dirent.le32? 0)
    let filetype ← Prog.defined (dirent 7)
    let (node, type) ← direntNode machine dir.data ino filetype
    let direntlen ← Prog.defined (dirent.le16? 4)
    pure (direntlen, some { namelen := namelen.toNat, filename, node, type })
  else do
    let direntlen ← Prog.defined (dirent.le16? 4)
    pure (direntlen, none)

/-- The loop of `ext2fs_iterate_dir` at `fpos`. Without a name it lists the
directory, which reads the inode of every entry. -/
def iterateDirFrom (dir : Node) (name : Option Str) : (fuel fpos : Nat) → FsProg (Node × FileType)
  | 0, _ => Prog.unfinished
  | fuel + 1, fpos =>
      if fpos < dir.inode.size then do
        let (direntlen, entry) ← direntAt machine dir fpos
        let next := iterateDirFrom dir name fuel ((fpos + direntlen) % 2 ^ 32)
        match entry, name with
        | none, _ => next
        | some entry, some name => do
            if ← Prog.defined (nameMatches entry.filename 0 entry.namelen name) then
              pure (entry.node, entry.type)
            else next
        | some entry, none => do
            let _ ← nodeInode machine entry.node
            next
      else Prog.fail .fsNotFound

def ext2fsIterateDir (fuel : Nat) (dir : Node) (name : Option Str) : FsProg (Node × FileType) := do
  let inode ← nodeInode machine dir
  iterateDirFrom machine { dir with inode } name fuel 0

def ext2fsReadSymlink (node : Node) : FsProg Str := do
  let inode ← nodeInode machine node
  malloc machine ((inode.size + 1) % 2 ^ 32)
  if inode.size ≤ 60 then pure ((inode.symlink.take inode.size).takeWhile (· ≠ 0))
  else do
    let buffer ← readFresh machine { node with inode } 0 inode.size
    Prog.defined (bufferString buffer 0 inode.size)

/-- The first component of a path without leading slashes, and `next`: what
follows the slashes behind it, if there are any. -/
def splitName (name : Str) : Str × Option Str :=
  (name.takeWhile (· ≠ 47),
    match name.dropWhile (· ≠ 47) with
    | [] => none
    | rest => some (rest.dropWhile (· = 47)))

/-- `ext2fs_find_file1` around its loop: leading slashes are skipped, and a
path with nothing else is `currroot` itself. `*foundtype` is not written then. -/
def enterPath (loop : Str → Node → FsProg (Node × Option FileType)) (currpath : Str)
    (currroot : Node) : FsProg (Node × Option FileType) :=
  match currpath.dropWhile (· = 47) with
  | [] => pure (currroot, none)
  | name => loop name currroot

/-- Follows the symlink `currnode` found in the directory `oldnode`: looks its
target up with the recursive call `find`. -/
def followSymlink (find : Str → Node → FsProg (Node × Option FileType)) (currnode oldnode : Node) :
    FsProg (Node × FileType) := do
  Prog.update fun fs => { fs with symlinknest := fs.symlinknest + 1 }
  if (← Prog.view Fs.symlinknest) = 8 then Prog.fail .fsLoop
  else do
    let symlink ← ext2fsReadSymlink machine currnode
    let oldnode ←
      if symlink.head? = some 47 then do
        let root ← Prog.defined (← Prog.view Fs.root)
        pure root.diropen
      else pure oldnode
    let found ← Prog.mapError (fun _ => .fsNotFound) (find symlink oldnode)
    pure (found.1, found.2.getD .symlink)

/-- Goes on behind a component that led to `currnode`, or ends there. -/
def goOn (loop : Str → FsProg (Node × Option FileType)) (next : Option Str) (currnode : Node)
    (type : FileType) : FsProg (Node × Option FileType) :=
  match next with
  | none => pure (currnode, some type)
  | some [] => pure (currnode, some type)
  | some name => loop name

/-- The loop of `ext2fs_find_file1` at the component that starts `name`; `type`
is the type of the current node. -/
def findLoop : (fuel : Nat) → (name : Str) → (currnode : Node) → (type : FileType) →
    FsProg (Node × Option FileType)
  | 0, _, _, _ => Prog.unfinished
  | fuel + 1, name, currnode, type =>
      if type ≠ .directory then Prog.fail .fsNotDir
      else do
        let oldnode := currnode
        let (currnode, type) ← ext2fsIterateDir machine fuel currnode (some (splitName name).1)
        let (currnode, type) ←
          if type = .symlink then
            followSymlink machine (enterPath fun name root => findLoop fuel name root .directory)
              currnode oldnode
          else pure (currnode, type)
        goOn (fun next => findLoop fuel next currnode type) (splitName name).2 currnode type

/-- `ext2fs_find_file1`: the node, and the type if `*foundtype` was written. -/
def ext2fsFindFile1 (fuel : Nat) (currpath : Str) (currroot : Node) :
    FsProg (Node × Option FileType) :=
  enterPath (fun name root => findLoop machine fuel name root .directory) currpath currroot

/-- `ext2fs_find_file`, with the type it compared with the expected one. -/
def ext2fsFindFile (fuel : Nat) (path : Str) (rootnode : Node) (expecttype : FileType) :
    FsProg (Node × FileType) := do
  Prog.update fun fs => { fs with symlinknest := 0 }
  let (node, foundtype) ← ext2fsFindFile1 machine fuel path rootnode
  let foundtype := foundtype.getD .directory
  if expecttype = .reg ∧ foundtype ≠ .reg then Prog.fail .fsNotReg
  else if expecttype = .directory ∧ foundtype ≠ .directory then Prog.fail .fsNotDir
  else pure (node, foundtype)

/-- `ext2fs_ls`. Whatever ends the listing is success. -/
def ext2fsLs (fuel : Nat) (dirname : Str) : FsProg Unit := do
  match ← Prog.view Fs.root with
  | none => Prog.fail .fsNotFound
  | some root => do
      let (dirnode, _) ← ext2fsFindFile machine fuel dirname root.diropen .directory
      let _ ← Prog.attempt (ext2fsIterateDir machine fuel dirnode none)
      pure ()

/-- `ext2fs_open`: the length of the file. -/
def ext2fsOpen (fuel : Nat) (filename : Str) : FsProg Nat := do
  match ← Prog.view Fs.root with
  | none => Prog.fail .fsNotFound
  | some root => do
      Prog.update fun fs => { fs with file := none }
      let (fdiro, _) ← ext2fsFindFile machine fuel filename root.diropen .reg
      let inode ← nodeInode machine fdiro
      Prog.update fun fs => { fs with file := some { fdiro with inode } }
      pure inode.size

def ext2fsClose : FsProg Unit := Prog.update fun fs =>
  { fs with
    file := if fs.root.isSome then none else fs.file
    dataBlocks := if fs.root.isSome then fs.dataBlocks - 1 else fs.dataBlocks
    root := none
    indir1 := if fs.indir1.block.isSome then .empty else fs.indir1
    indir2 := if fs.indir2.block.isSome then .empty else fs.indir2 }

def ext2fsRead (len : Nat) : FillProg Unit := do
  match ← Prog.onFirst (Prog.view fun fs : Fs => (fs.root, fs.file)) with
  | (some _, some file) => ext2fsReadFile machine file 0 len
  | _ => Prog.fail .fsNotFound

/-- Reads the superblock and the root inode of the open partition. -/
def readSuper : FsProg Ext2Data := do
  let sblock ← readStruct machine 2 0 204
  if sblock.le16 56 ≠ 0xEF53 then Prog.fail .fsNotExt2
  else do
    let size := if sblock.le32 76 = 0 then 128 else sblock.le16 88
    Prog.update fun fs => { fs with inodeSize := size }
    let rootInode ← ext2fsReadInode machine { sblock, rootInode := { raw := fun _ => 0 } } 2
    pure { sblock, rootInode }

/-- `ext2fs_mount`. On an error the data block is freed. -/
def ext2fsMount : FsProg Unit := do
  malloc machine 352
  Prog.update fun fs => { fs with dataBlocks := fs.dataBlocks + 1 }
  let data ← Prog.onError (fun fs => { fs with root := none, dataBlocks := fs.dataBlocks - 1 })
    (readSuper machine)
  Prog.update fun fs => { fs with root := some data }

end IQuik.Ext2
