import TangPingOS.Vfs.Mount

/-! # The memory filesystem

`kernel/ramfs.c`: sixteen slots of 1024 bytes each. A slot that is given up keeps its
bytes, and creating a file in it does not clear them. A path is the list of its
characters before the terminating zero. Log lines are left out.

Seen from outside, the slots are a map from paths to byte strings.
-/

namespace TangPingOS

open Lib

/-- `VFS_DIRENT_TYPE_FILE` and the other kinds of directory entries. -/
inductive DirentType where
  | file
  | dir
  | device
  deriving DecidableEq, Repr

/-- `struct vfs_dirent`. -/
structure Dirent where
  name : Bytes
  type : DirentType
  size : Nat
  deriving DecidableEq, Repr

def vfsDirentNameMax : Nat := 64

def ramfsMaxFiles : Nat := 16
def ramfsNameMax : Nat := 64
def ramfsFileMaxSize : Nat := 1024

structure RamfsFile where
  inUse : Bool
  name : Bytes
  data : Buf ramfsFileMaxSize
  size : Nat

/-- `files`. -/
abbrev Ramfs := Fin ramfsMaxFiles → RamfsFile

/-- `ramfs_init`, whatever the slots held before. -/
def ramfsInit (s : Ramfs) : Ramfs := fun i => { s i with inUse := false, size := 0, name := [] }

/-- The loop of `ramfs_path_valid` from index `i` on. -/
def ramfsNameValid : Nat → Bytes → Bool
  | _, [] => true
  | i, c :: rest =>
    if c = slash then false
    else if ramfsNameMax ≤ i + 1 then false
    else ramfsNameValid (i + 1) rest

def ramfsPathValid : Bytes → Bool
  | [] => false
  | c :: rest => c == slash && rest != [] && ramfsNameValid 1 rest

variable (path : Bytes)

def copyPath : Bytes := path.take (ramfsNameMax - 1)

def copyDirentName : Bytes :=
  let name := if path.head? = some slash then path.tail else path
  name.take (vfsDirentNameMax - 1)

def findFile (s : Ramfs) : Option (Fin ramfsMaxFiles) :=
  (List.finRange ramfsMaxFiles).find? fun i => (s i).inUse && (s i).name == path

def createFile (s : Ramfs) : Option (Fin ramfsMaxFiles × Ramfs) :=
  ((List.finRange ramfsMaxFiles).find? fun i => !(s i).inUse).map fun i =>
    (i, Function.update s i { s i with inUse := true, size := 0, name := copyPath path })

def findOrCreate (s : Ramfs) : Option (Fin ramfsMaxFiles × Ramfs) :=
  match findFile path s with
  | some i => some (i, s)
  | none => createFile path s

/-- `ramfs_read`: the bytes copied, or none for the result -1. -/
def ramfsRead (offset bufferLen : Nat) (s : Ramfs) : Option Bytes :=
  (findFile path s).map fun i =>
    if (s i).size ≤ offset then []
    else (s i).data.slice offset (min bufferLen ((s i).size - offset))

def ramfsSize (s : Ramfs) : Option Nat :=
  (findFile path s).map fun i => (s i).size

/-- The loop of `ramfs_list` over the slots `slots`, of which `seen` were in use before. -/
def ramfsListFrom (index : Nat) (s : Ramfs) : List (Fin ramfsMaxFiles) → Nat → Option Dirent
  | [], _ => none
  | i :: rest, seen =>
    if !(s i).inUse then ramfsListFrom index s rest seen
    else if seen = index then
      some { name := copyDirentName (s i).name, type := .file, size := (s i).size }
    else ramfsListFrom index s rest (seen + 1)

/-- `ramfs_list`: none for the result -1, no entry for the result 0. -/
def ramfsList (index : Nat) (s : Ramfs) : Option (Option Dirent) :=
  if path ≠ [slash] then none
  else some (ramfsListFrom index s (List.finRange ramfsMaxFiles) 0)

/-- The bytes of a file from its end to `size` are cleared. -/
def RamfsFile.zeroTo (f : RamfsFile) (size : Nat) : RamfsFile :=
  if f.size < size then
    { f with data := f.data.write f.size (List.replicate (size - f.size) 0) }
  else f

/-- The slot after the copy in `ramfs_write`. -/
def RamfsFile.written (f : RamfsFile) (offset : Nat) (bytes : Bytes) : RamfsFile :=
  let f := f.zeroTo offset
  let f := { f with data := f.data.write offset bytes }
  if f.size < offset + bytes.length then { f with size := offset + bytes.length } else f

/-- `ramfs_write`: the count written, or none for the result -1. -/
def ramfsWrite (offset : Nat) (bytes : Bytes) (s : Ramfs) : Option Nat × Ramfs :=
  if !ramfsPathValid path || decide (ramfsFileMaxSize < offset) ||
      decide (ramfsFileMaxSize - offset < bytes.length) then (none, s)
  else
    match findOrCreate path s with
    | none => (none, s)
    | some (i, s) => (some bytes.length, Function.update s i ((s i).written offset bytes))

/-- `ramfs_truncate`: the Boolean is false for the result -1. -/
def ramfsTruncate (size : Nat) (s : Ramfs) : Bool × Ramfs :=
  if !ramfsPathValid path || decide (ramfsFileMaxSize < size) then (false, s)
  else
    match findOrCreate path s with
    | none => (false, s)
    | some (i, s) => (true, Function.update s i { (s i).zeroTo size with size := size })

def ramfsUnlink (s : Ramfs) : Bool × Ramfs :=
  if !ramfsPathValid path then (false, s)
  else
    match findFile path s with
    | none => (false, s)
    | some i => (true, Function.update s i { s i with inUse := false, size := 0, name := [] })

end TangPingOS
