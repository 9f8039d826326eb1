import TangPingOS.Process.Spawn
import TangPingOS.Vfs.Boot

/-! # The files of a task

The descriptor functions of `kernel/scheduler.c`. A descriptor is a slot of the task that
refers to one of its open files; several slots may refer to the same one, which counts
them. What a call does to the current task is a function of the task and of the state of
the mounted filesystems; a null pointer is none. Log lines are left out.
-/

namespace TangPingOS

open Lib

def taskFirstFileFd : Nat := 3
def taskPathMax : Nat := 128

def openCreate : Nat := 1
def openTrunc : Nat := 2
def openAppend : Nat := 4

def seekSet : Nat := 0
def seekCur : Nat := 1
def seekEnd : Nat := 2

def copyFilePath (path : Bytes) : Bytes := path.take (taskPathMax - 1)

def fdIsValid (fd : Int) : Bool := decide (0 ≤ fd) && decide (fd < taskMaxFds)

def TaskOpenFile.dropped (file : TaskOpenFile) : TaskOpenFile :=
  if file.refCount - 1 = 0 then {} else { file with refCount := file.refCount - 1 }

namespace Task

variable (t : Task)

def file (fd : Nat) : TaskFile := t.files.getD fd {}

def openFile (index : Nat) : TaskOpenFile := t.openFiles.getD index {}

def setFile (fd : Nat) (file : TaskFile) : Task := { t with files := t.files.set fd file }

def setOpenFile (index : Nat) (file : TaskOpenFile) : Task :=
  { t with openFiles := t.openFiles.set index file }

def indexOf (fd : Nat) : Option Nat :=
  let file := t.file fd
  if !file.inUse || decide (file.openFileIndex < 0) ||
      decide ((taskMaxOpenFiles : Int) ≤ file.openFileIndex) then none
  else some file.openFileIndex.toNat

/-- `current_open_file_for_fd`, as an index. -/
def currentOpenFileForFd (fd : Int) : Option Nat :=
  if !fdIsValid fd then none
  else (t.indexOf fd.toNat).filter fun index => (t.openFile index).inUse

/-- `allocate_current_open_file`. -/
def allocateOpenFile (type : TaskFileType) (path : Bytes) (append : Bool) : Option (Nat × Task) :=
  ((List.range taskMaxOpenFiles).find? fun index => !(t.openFile index).inUse).map fun index =>
    (index, t.setOpenFile index
      { inUse := true, refCount := 0, type := type, path := copyFilePath path, offset := 0,
        append := append })

def dropReference (index : Nat) : Task :=
  let file := t.openFile index
  if file.inUse && decide (0 < file.refCount) then t.setOpenFile index file.dropped else t

/-- `close_current_fd_slot`, for a valid descriptor. -/
def closeFdSlot (fd : Nat) : Task :=
  match t.indexOf fd with
  | none => t.setFile fd {}
  | some index => (t.dropReference index).setFile fd {}

def refer (fd index : Nat) : Task :=
  let t := t.setFile fd { inUse := true, openFileIndex := index }
  t.setOpenFile index
    { t.openFile index with refCount := wrap64 ((t.openFile index).refCount + 1) }

def freeFd : Option Nat :=
  (List.range' taskFirstFileFd (taskMaxFds - taskFirstFileFd)).find? fun fd => !(t.file fd).inUse

end Task

section Calls

variable {σ : Type} (table : List (Filesystem σ))

/-- The end of `scheduler_open_current_file`, once the file is there: -1 for a failure. -/
def openExisting (path : Bytes) (type : TaskFileType) (append : Bool) (s : σ) (t : Task) : Int × Task :=
  match t.allocateOpenFile type path append with
  | none => (-1, t)
  | some (index, t) =>
    match if type = .vfs ∧ append then vfsFileSize table path s else some 0 with
    | none => (-1, t.setOpenFile index {})
    | some offset =>
      let t := t.setOpenFile index { t.openFile index with offset := offset }
      match t.freeFd with
      | none => (-1, t.setOpenFile index {})
      | some fd => (fd, t.refer fd index)

/-- `scheduler_open_current_file`. -/
def openCurrentFile (path : Option Bytes) (flags : Nat) (s : σ) (t : Task) : Int × σ × Task :=
  match path with
  | none => (-1, s, t)
  | some path =>
    let type : TaskFileType := if ttyIsPath path then .tty else .vfs
    let append := decide (type = .vfs) && anyBit flags openAppend
    let flags := if type = .vfs then flags else 0
    if !vfsFileExists table path s then
      if !anyBit flags openCreate then (-1, s, t)
      else
        match vfsCreateFile table path s with
        | (false, s) => (-1, s, t)
        | (true, s) =>
          let (fd, t) := openExisting table path type append s t
          (fd, s, t)
    else if anyBit flags openTrunc then
      match vfsTruncateFile table path 0 s with
      | (false, s) => (-1, s, t)
      | (true, s) =>
        let (fd, t) := openExisting table path type append s t
        (fd, s, t)
    else
      let (fd, t) := openExisting table path type append s t
      (fd, s, t)

/-- `scheduler_close_current_file`. -/
def closeCurrentFile (fd : Int) (t : Task) : Int × Task :=
  match t.currentOpenFileForFd fd with
  | none => (-1, t)
  | some _ => (0, t.closeFdSlot fd.toNat)

/-- `scheduler_current_fd_is_tty`. -/
def currentFdIsTty (fd : Int) (t : Task) : Bool :=
  if !fdIsValid fd then false
  else if !(t.file fd.toNat).inUse && decide (fd ≤ 2) then true
  else
    match t.currentOpenFileForFd fd with
    | none => false
    | some index => (t.openFile index).type = .tty

/-- The open file that `scheduler_dup2_current_file` duplicates; one for the terminal is made for a
    standard descriptor that has none. -/
def dup2Source (oldFd : Int) (t : Task) : Option (Nat × Task) :=
  match t.currentOpenFileForFd oldFd with
  | some index => some (index, t)
  | none =>
    if oldFd ≤ 2 then
      t.allocateOpenFile .tty [0x2f, 0x64, 0x65, 0x76, 0x2f, 0x74, 0x74, 0x79] false
    else none

/-- `scheduler_dup2_current_file`. -/
def dup2CurrentFile (oldFd newFd : Int) (t : Task) : Int × Task :=
  if !fdIsValid oldFd || !fdIsValid newFd then (-1, t)
  else if oldFd = newFd then
    (if currentFdIsTty oldFd t || (t.currentOpenFileForFd oldFd).isSome then newFd else -1, t)
  else
    match dup2Source oldFd t with
    | none => (-1, t)
    | some (index, t) => (newFd, (t.closeFdSlot newFd.toNat).refer newFd.toNat index)

/-- The file of a descriptor that reads, writes and seeks, with its index. -/
def currentVfsFile (fd : Int) (t : Task) : Option (Nat × TaskOpenFile) :=
  (t.currentOpenFileForFd fd).bind fun index =>
    if (t.openFile index).type = .vfs then some (index, t.openFile index) else none

/-- `scheduler_read_current_file`. -/
def readCurrentFile (fd : Int) (buffer : Bool) (len : Nat) (s : σ) (t : Task) : Option Bytes × Task :=
  if !buffer then (none, t)
  else
    match currentVfsFile fd t with
    | none => (none, t)
    | some (index, file) =>
      match vfsReadFile table file.path file.offset len s with
      | none => (none, t)
      | some bytes =>
        (some bytes,
          t.setOpenFile index { file with offset := wrap64 (file.offset + bytes.length) })

/-- `scheduler_write_current_file`. -/
def writeCurrentFile (fd : Int) (buffer : Option Bytes) (s : σ) (t : Task) : Option Nat × σ × Task :=
  match buffer, currentVfsFile fd t with
  | some bytes, some (index, file) =>
    match if file.append then vfsFileSize table file.path s else some file.offset with
    | none => (none, s, t)
    | some offset =>
      match vfsWriteExistingFile table file.path offset bytes s with
      | (none, s) => (none, s, t)
      | (some written, s) =>
        (some written, s, t.setOpenFile index { file with offset := wrap64 (offset + written) })
  | _, _ => (none, s, t)

/-- Where `scheduler_seek_current_file` counts from. -/
def seekBase (file : TaskOpenFile) (whence : Nat) (s : σ) : Option Nat :=
  if whence = seekSet then some 0
  else if whence = seekCur then some file.offset
  else if whence = seekEnd then vfsFileSize table file.path s
  else none

def seekTarget (base : Nat) (offset : Int) : Option Nat :=
  if offset < 0 then
    if offset = -2 ^ 63 then none
    else if base < (-offset).toNat then none
    else some (base - (-offset).toNat)
  else if u64Max - base < offset.toNat then none
  else some (base + offset.toNat)

/-- `scheduler_seek_current_file`. -/
def seekCurrentFile (fd : Int) (offset : Int) (whence : Nat) (s : σ) (t : Task) : Nat × Task :=
  match currentVfsFile fd t with
  | none => (u64Max, t)
  | some (index, file) =>
    match (seekBase table file whence s).bind fun base => seekTarget base offset with
    | none => (u64Max, t)
    | some target => (target, t.setOpenFile index { file with offset := target })

end Calls

end TangPingOS
