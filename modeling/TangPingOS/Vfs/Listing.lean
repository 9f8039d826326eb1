import TangPingOS.Exfat.Files
import TangPingOS.Vfs.Boot

/-! # Listing directories

`vfs_list_dir` and the functions of the mounted filesystems behind it. An entry is looked
for by its number: the mounts below the directory come first, then what each filesystem
that the path leads to has there. With the names and sources of the mounts, this is what
`vfs_mount_info` reports.
-/

namespace TangPingOS

open Lib

def vfsMaxDirentsPerFs : Nat := 64
def vfsMountNameMax : Nat := 32
def vfsMountSourceMax : Nat := 64

/-- `struct vfs_filesystem`, with what is reported about it. Listing yields none for the result -1 and no
    entry for the result 0. -/
structure MountedFs (σ : Type) extends Filesystem σ where
  name : Bytes
  source : Bytes
  list : Option (Bytes → Nat → σ → Option (Option Dirent))

def devfsList (path : Bytes) (index : Nat) : Option (Option Dirent) :=
  if path = [slash] then
    if 0 < index then some none
    else some (some { name := [0x74, 0x74, 0x79], type := .device, size := 0 })
  else none

/-- `path_child_for_dir`: the component of a file name behind a directory, and whether more follows. -/
def pathChildForDir (fileName dir : Bytes) : Option (Bytes × Bool) :=
  let rest :=
    if dir = [] then some fileName
    else if dir.isPrefixOf fileName ∧ (fileName.drop dir.length).head? = some slash then
      some (fileName.drop (dir.length + 1))
    else none
  rest.bind fun rest =>
    let child := rest.takeWhile fun c => c != slash
    if child = [] then none else some (child, decide (child.length < rest.length))

def listedChildBefore (dir : Bytes) (before : List InitrdFile) (child : Bytes) : Bool :=
  before.any fun file => (pathChildForDir file.name dir).map Prod.fst == some child

def copyChildName (child : Bytes) : Bytes := child.take (vfsDirentNameMax - 1)

/-- The loop of `initrd_list_dir` behind the files `before`, with `seen` entries passed. -/
def initrdListFrom (dir : Bytes) (index : Nat) : List InitrdFile → List InitrdFile → Nat → Option Dirent
  | _, [], _ => none
  | before, file :: rest, seen =>
    match pathChildForDir file.name dir with
    | none => initrdListFrom dir index (before ++ [file]) rest seen
    | some (child, isDir) =>
      if listedChildBefore dir before child then initrdListFrom dir index (before ++ [file]) rest seen
      else if seen = index then
        some
          { name := copyChildName child
            type := if isDir then .dir else .file
            size := if isDir then 0 else file.data.length }
      else initrdListFrom dir index (before ++ [file]) rest (seen + 1)

def initrdListDir (path : Bytes) (index : Nat) (files : List InitrdFile) : Option (Option Dirent) :=
  let dir := normalizePath path
  let dir := if dir = [dot] then [] else dir
  some (initrdListFrom dir index [] files 0)

/-- The loop of `blockfs_list`. -/
def blockfsListFrom (path : Bytes) (index : Nat) : List RootEntry → Nat → Option Dirent
  | [], _ => none
  | e :: rest, localIndex =>
    if e.parent ≠ path then blockfsListFrom path index rest localIndex
    else if localIndex ≠ index then blockfsListFrom path index rest (localIndex + 1)
    else
      some
        { name := copyLimited vfsDirentNameMax e.name
          type := if e.isDir then .dir else .file
          size := e.size }

/-- `blockfs_list`: the root of a volume begins with two files that are made up. -/
def blockfsList (path : Bytes) (index : Nat) (entries : List RootEntry) : Option (Option Dirent) :=
  if path = [slash] then
    if index = 0 then
      some (some { name := [0x69, 0x6e, 0x66, 0x6f, 0x2e, 0x74, 0x78, 0x74], type := .file, size := 0 })
    else if index = 1 then
      some (some
        { name := [0x73, 0x65, 0x63, 0x74, 0x6f, 0x72, 0x30, 0x2e, 0x62, 0x69, 0x6e], type := .file
          size := 512 })
    else some (blockfsListFrom path (index - 2) entries 0)
  else some (blockfsListFrom path index entries 0)

section Mounts

variable {β : Type}

/-- The mounts of `devfs_init`, `ramfs_init` and `initrd_init`. -/
def devfsMount : MountedFs (BootState β) :=
  { devfs with
    name := [0x64, 0x65, 0x76, 0x66, 0x73]
    source := [0x6b, 0x65, 0x72, 0x6e, 0x65, 0x6c, 0x2d, 0x64, 0x65, 0x76, 0x69, 0x63, 0x65, 0x73]
    list := some fun path index _ => devfsList path index }

def ramfsMount : MountedFs (BootState β) :=
  { ramfs with
    name := [0x72, 0x61, 0x6d, 0x66, 0x73]
    source := [0x6d, 0x65, 0x6d, 0x6f, 0x72, 0x79]
    list := some fun path index s => ramfsList path index s.ramfs }

def initrdMount : MountedFs (BootState β) :=
  { initrd with
    name := [0x69, 0x6e, 0x69, 0x74, 0x72, 0x64]
    source := [0x6c, 0x69, 0x6d, 0x69, 0x6e, 0x65, 0x2d, 0x69, 0x6e, 0x69, 0x74, 0x72, 0x64]
    list := some fun path index s => initrdListDir path index s.initrd }

def bootMounts : List (MountedFs (BootState β)) := [devfsMount, ramfsMount, initrdMount]

end Mounts

/-! ## The loops over the mounts -/

/-- `mount_parent_entry`: the entry of a mount in the directory above it. -/
def mountParentEntry (mount path : Bytes) : Option Dirent :=
  if mount = [slash] then none
  else
    let last := lastSlash mount
    let parentLen := if last = 0 then 1 else last
    if path.length ≠ parentLen then none
    else if parentLen = 1 then
      if path = [slash] then
        some { name := copyLimited vfsDirentNameMax (mount.drop 1), type := .dir, size := 0 }
      else none
    else if path = mount.take parentLen then
      some { name := copyLimited vfsDirentNameMax (mount.drop (last + 1)), type := .dir, size := 0 }
    else none

section Table

variable {σ : Type}

/-- The first loop of `vfs_list_dir`: the entry, or how many were passed. -/
def listMounts (path : Bytes) (index : Nat) : List (MountedFs σ) → Nat → Dirent ⊕ Nat
  | [], seen => .inr seen
  | fs :: rest, seen =>
    match mountParentEntry fs.path path with
    | none => listMounts path index rest seen
    | some entry => if seen = index then .inl entry else listMounts path index rest (seen + 1)

/-- The entries of one filesystem, `left` more of them at most. -/
def listLocal (list : Bytes → Nat → σ → Option (Option Dirent)) (localPath : Bytes) (index : Nat) (s : σ) :
    Nat → Nat → Nat → Dirent ⊕ Nat
  | 0, _, seen => .inr seen
  | left + 1, localIndex, seen =>
    match list localPath localIndex s with
    | some (some entry) =>
      if seen = index then .inl entry else listLocal list localPath index s left (localIndex + 1) (seen + 1)
    | _ => .inr seen

/-- The second loop of `vfs_list_dir`. -/
def listFilesystems (path : Bytes) (index : Nat) (s : σ) : List (MountedFs σ) → Nat → Dirent ⊕ Nat
  | [], seen => .inr seen
  | fs :: rest, seen =>
    match fs.list with
    | none => listFilesystems path index s rest seen
    | some list =>
      if !mountPathMatches fs.toFilesystem path then listFilesystems path index s rest seen
      else
        match listLocal list (mountLocalPath fs.toFilesystem path) index s vfsMaxDirentsPerFs 0 seen with
        | .inl entry => .inl entry
        | .inr seen => listFilesystems path index s rest seen

/-- `vfs_list_dir`: none for the result 0. -/
def vfsListDir (table : List (MountedFs σ)) (path : Bytes) (index : Nat) (s : σ) : Option Dirent :=
  match listMounts path index table 0 with
  | .inl entry => some entry
  | .inr seen =>
    match listFilesystems path index s table seen with
    | .inl entry => some entry
    | .inr _ => none

/-- `struct vfs_mount_info`. -/
structure MountInfo where
  name : Bytes
  path : Bytes
  source : Bytes
  writable : Bool
  deriving DecidableEq, Repr

def vfsMountInfo (table : List (MountedFs σ)) (index : Nat) : Option MountInfo :=
  table[index]?.map fun fs =>
    { name := copyLimited vfsMountNameMax fs.name
      path := copyLimited vfsMountPathMax fs.path
      source := copyLimited vfsMountSourceMax fs.source
      writable := fs.write.isSome }

end Table

end TangPingOS
