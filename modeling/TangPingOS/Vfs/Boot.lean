import TangPingOS.Vfs.RamfsMap

/-! # The filesystems mounted at boot

`kernel/devfs.c` at `/dev`, then the memory filesystem and the initial ramdisk, both at
the root, then the block filesystems. The files of the ramdisk are any list; how they
are found in its archive is not modelled here.
-/

namespace TangPingOS

open Lib

/-- `tty_is_path`: `/dev/tty`. -/
def ttyIsPath (path : Bytes) : Bool := path == [0x2f, 0x64, 0x65, 0x76, 0x2f, 0x74, 0x74, 0x79]

/-- `devfs_read`: the terminal reads as an empty file, here and as `/tty`. -/
def devfsRead (path : Bytes) : Option Bytes :=
  if ttyIsPath path || path == [0x2f, 0x74, 0x74, 0x79] then some [] else none

def initrdNameMax : Nat := 128

structure InitrdFile where
  name : Bytes
  data : Bytes

/-- The character `.` of path components that mean the directory itself. -/
def dot : UInt8 := 0x2e

section

variable (path : Bytes)

def normalizePath : Bytes :=
  let path := path.dropWhile fun c => c == slash
  if [dot, slash].isPrefixOf path then path.drop 2 else path

def copyUserPath : Bytes := (normalizePath path).take (initrdNameMax - 1)

/-- The file that `initrd_read_file` and `initrd_file_size` find. -/
def findInitrd (files : List InitrdFile) : Option InitrdFile :=
  files.find? fun file => copyUserPath path == file.name

def initrdReadFile (offset bufferLen : Nat) (files : List InitrdFile) : Option Bytes :=
  (findInitrd path files).map fun file =>
    if file.data.length ≤ offset then []
    else (file.data.drop offset).take (min (file.data.length - offset) bufferLen)

def initrdFileSize (files : List InitrdFile) : Option Nat :=
  (findInitrd path files).map fun file => file.data.length

end

/-- What the mounted filesystems keep; `block` is the state of the block filesystems. -/
structure BootState (β : Type) where
  ramfs : Ramfs
  initrd : List InitrdFile
  block : β

section Boot

variable {β : Type}

/-- The mount of `devfs_init`. -/
def devfs : Filesystem (BootState β) where
  path := [0x2f, 0x64, 0x65, 0x76]
  read path _ _ _ := devfsRead path
  write := none
  size := none
  truncate := none
  unlink := none

/-- A call on the memory filesystem, in the state of all filesystems. -/
def onRamfs {α : Type} (f : Ramfs → α × Ramfs) (s : BootState β) : α × BootState β :=
  ((f s.ramfs).1, { s with ramfs := (f s.ramfs).2 })

/-- The mount of `ramfs_init`. -/
def ramfs : Filesystem (BootState β) where
  path := [slash]
  read path offset len s := ramfsRead path offset len s.ramfs
  write := some fun path offset bytes => onRamfs (ramfsWrite path offset bytes)
  size := some fun path s => ramfsSize path s.ramfs
  truncate := some fun path size => onRamfs (ramfsTruncate path size)
  unlink := some fun path => onRamfs (ramfsUnlink path)

/-- The mount of `initrd_init`. -/
def initrd : Filesystem (BootState β) where
  path := [slash]
  read path offset len s := initrdReadFile path offset len s.initrd
  write := none
  size := some fun path s => initrdFileSize path s.initrd
  truncate := none
  unlink := none

def bootTable : List (Filesystem (BootState β)) := [devfs, ramfs, initrd]

/-! ## Reading and writing files in the root directory -/

variable {s : BootState β} {p : Bytes}

def BootState.initrdContent (s : BootState β) (p : Bytes) : Option Bytes :=
  (findInitrd p s.initrd).map InitrdFile.data

theorem initrdReadFile_eq (offset len : Nat) :
    initrdReadFile p offset len s.initrd
      = (s.initrdContent p).map fun content => (content.drop offset).take len := by
  unfold initrdReadFile BootState.initrdContent
  cases findInitrd p s.initrd with
  | none => rfl
  | some file =>
    simp only [Option.map_some]
    split
    · rename_i beyond
      rw [List.drop_of_length_le beyond, List.take_nil]
    · rw [Nat.min_comm, ← List.length_drop, ← List.take_eq_take_min]

/-- A path of one component is below no mount but those at the root; it may be a mount path itself. -/
theorem ValidPath.mounted {fs : Filesystem σ} (valid : ValidPath p) (real : fs.path ≠ [])
    (deeper : fs.path ≠ [slash]) (reached : mountPathMatches fs p) :
    p = fs.path ∧ mountLocalPath fs p = [slash] := by
  obtain ⟨name, rfl, -, -, clean⟩ := valid
  obtain ⟨-, atRoot | ⟨rest, same, ends⟩⟩ := mountPathMatches_iff.mp reached
  · exact absurd atRoot deeper
  · obtain ⟨c, mount, split⟩ := List.exists_cons_of_ne_nil real
    rw [split, List.cons_append, List.cons.injEq] at same
    rcases ends with rfl | first
    · rw [List.append_nil] at same
      have whole : slash :: name = fs.path := by rw [split, same.1, same.2]
      exact ⟨whole, by simp [mountLocalPath, ← whole]⟩
    · have inside : slash ∈ rest := List.mem_of_head? first
      exact absurd (same.2 ▸ List.mem_append_right mount inside) clean

theorem ValidPath.head (valid : ValidPath p) : p.head? = some slash := by
  obtain ⟨name, rfl, -⟩ := valid
  rfl

theorem root_reached {fs : Filesystem σ} (atRoot : fs.path = [slash])
    (absolute : p.head? = some slash) : mountPathMatches fs p ∧ mountLocalPath fs p = p :=
  ⟨mountPathMatches_iff.mpr ⟨absolute, .inl atRoot⟩, by simp [mountLocalPath, atRoot]⟩

theorem devfs_refuses (valid : ValidPath p) (reached : mountPathMatches (devfs (β := β)) p) :
    devfsRead (mountLocalPath (devfs (β := β)) p) = none := by
  rw [(valid.mounted (by simp [devfs]) (by simp [devfs]) reached).2]
  rfl

theorem vfsReadFile_boot (valid : ValidPath p) :
    vfsReadFile bootTable p offset len s
      = ((s.ramfs.files p).or (s.initrdContent p)).map fun content => (content.drop offset).take len := by
  have past : dispatch (readCall offset len) p bootTable s
      = dispatch (readCall offset len) p [ramfs, initrd] s := by
    cases reached : mountPathMatches (devfs (β := β)) p with
    | false => exact dispatch_skip (.inr reached)
    | true =>
      refine dispatch_failed (f := fun path s => (devfsRead path, s)) rfl reached ?_
      rw [devfs_refuses valid reached]
  obtain ⟨toRamfs, sameRamfs⟩ := root_reached (rfl : (ramfs (β := β)).path = [slash]) valid.head
  obtain ⟨toInitrd, sameInitrd⟩ := root_reached (rfl : (initrd (β := β)).path = [slash]) valid.head
  have fromRamfs : ramfsRead p offset len s.ramfs
      = (s.ramfs.files p).map fun content => (content.drop offset).take len :=
    ramfsRead_refines
  rw [vfsReadFile, past]
  cases held : s.ramfs.files p with
  | some content =>
    rw [held] at fromRamfs
    rw [dispatch_done (f := fun path s => (ramfsRead path offset len s.ramfs, s)) rfl toRamfs
      (by rw [sameRamfs, fromRamfs]; rfl)]
    rfl
  | none =>
    rw [held] at fromRamfs
    rw [dispatch_failed (f := fun path s => (ramfsRead path offset len s.ramfs, s)) rfl toRamfs
      (by rw [sameRamfs, fromRamfs]; rfl)]
    have fromInitrd := initrdReadFile_eq (s := s) (p := p) offset len
    cases found : s.initrdContent p with
    | some content =>
      rw [found] at fromInitrd
      rw [dispatch_done (f := fun path s => (initrdReadFile path offset len s.initrd, s)) rfl
        toInitrd (by rw [sameInitrd, fromInitrd]; rfl)]
      rfl
    | none =>
      rw [found] at fromInitrd
      rw [dispatch_failed (f := fun path s => (initrdReadFile path offset len s.initrd, s)) rfl
        toInitrd (by rw [sameInitrd, fromInitrd]; rfl)]
      rfl

theorem vfsWriteFile_boot (absolute : p.head? = some slash) :
    vfsWriteFile bootTable p offset bytes s = onRamfs (ramfsWrite p offset bytes) s := by
  obtain ⟨toRamfs, sameRamfs⟩ := root_reached (rfl : (ramfs (β := β)).path = [slash]) absolute
  have past : dispatch (writeCall offset bytes) p bootTable s
      = dispatch (writeCall offset bytes) p [ramfs, initrd] s := dispatch_skip (.inl rfl)
  rw [vfsWriteFile, past]
  cases written : ramfsWrite p offset bytes s.ramfs with
  | mk result ramfs' =>
    cases result with
    | some count =>
      rw [dispatch_done (f := fun path => onRamfs (ramfsWrite path offset bytes)) rfl toRamfs
        (by rw [sameRamfs, onRamfs, written])]
      simp [onRamfs, written]
    | none =>
      rw [dispatch_failed (f := fun path => onRamfs (ramfsWrite path offset bytes)) rfl toRamfs
        (by rw [sameRamfs, onRamfs, written]), dispatch_skip (.inl rfl)]
      simp [onRamfs, written, dispatch]

theorem vfsWriteFile_absolute
    (written : (vfsWriteFile bootTable p offset bytes s).1 = some count) : p.head? = some slash := by
  by_contra relative
  rw [vfsWriteFile, dispatch_relative relative] at written
  cases written

/-- The content that `vfs_read_file` shows at a path; nothing where there is no file. -/
def Shows (s : BootState β) (p content : Bytes) : Prop :=
  (∀ offset len, vfsReadFile bootTable p offset len s = some ((content.drop offset).take len)) ∨
    content = [] ∧ ∀ offset len, vfsReadFile bootTable p offset len s = none

theorem Shows.unique (first : Shows s p a) (second : Shows s p b) : a = b := by
  rcases first with shown | ⟨rfl, absent⟩ <;> rcases second with shown' | ⟨rfl, absent'⟩
  · have same := (shown 0 (a.length + b.length)).symm.trans (shown' 0 (a.length + b.length))
    simpa [List.take_of_length_le, Nat.le_add_left, Nat.le_add_right] using same
  · cases (shown 0 0).symm.trans (absent' 0 0)
  · cases (absent 0 0).symm.trans (shown' 0 0)
  · rfl

theorem shows_of_valid (valid : ValidPath p) : Shows s p (((s.ramfs.files p).or (s.initrdContent p)).getD []) := by
  cases held : (s.ramfs.files p).or (s.initrdContent p) with
  | none =>
    right
    refine ⟨rfl, fun offset len => ?_⟩
    rw [vfsReadFile_boot valid, held, Option.map_none]
  | some content =>
    left
    intro offset len
    rw [vfsReadFile_boot valid, held]
    rfl

/-- The memory filesystem has the file already, or the ramdisk has none of that name, or what the
    ramdisk shows is covered by the write but for zeros. -/
def WritesWhatIsRead (s : BootState β) (p : Bytes) (offset : Nat) (bytes : Bytes) : Prop :=
  (s.ramfs.files p).isSome ∨
    ∀ content, s.initrdContent p = some content →
      content.length ≤ offset + bytes.length ∧ ∀ i < offset, content.getD i 0 = 0

/-- A write that reports success edits what was read at the path just if the ramdisk does not get in
    the way. -/
theorem vfs_write_edits_iff (ok : RamfsOk s.ramfs) {offset : Nat} {bytes content : Bytes}
    (shown : Shows s p content) (written : (vfsWriteFile bootTable p offset bytes s).1 = some bytes.length) :
    Shows (vfsWriteFile bootTable p offset bytes s).2 p (overwrite content offset bytes) ↔
      WritesWhatIsRead s p offset bytes := by
  have absolute := vfsWriteFile_absolute written
  rw [vfsWriteFile_boot absolute] at written ⊢
  have agrees := (ramfsWrite_refines ok (p := p) offset bytes).2
  have accepted : (s.ramfs.files.write ramfsLimits p offset bytes).1 = some bytes.length := by
    rw [agrees]
    exact written
  obtain ⟨valid, files⟩ := FileMap.write_accepted accepted
  have after : (onRamfs (ramfsWrite p offset bytes) s).2.ramfs.files p
      = some (overwrite ((s.ramfs.files p).getD []) offset bytes) := by
    have same : (onRamfs (ramfsWrite p offset bytes) s).2.ramfs.files
        = (s.ramfs.files.write ramfsLimits p offset bytes).2 := by
      rw [agrees]
      rfl
    rw [same, files, Function.update_self]
  have before := (shows_of_valid (s := s) valid).unique shown
  have shows_after := shows_of_valid (s := (onRamfs (ramfsWrite p offset bytes) s).2) valid
  rw [after, Option.some_or] at shows_after
  have same : Shows (onRamfs (ramfsWrite p offset bytes) s).2 p (overwrite content offset bytes) ↔
      overwrite content offset bytes = overwrite ((s.ramfs.files p).getD []) offset bytes := by
    constructor
    · intro edited
      exact edited.unique shows_after
    · intro same
      rwa [same]
  rw [same, ← before]
  unfold WritesWhatIsRead
  cases held : s.ramfs.files p with
  | some old => simp
  | none =>
    cases found : s.initrdContent p with
    | none => simp
    | some old => simpa using overwrite_eq_nil_iff

end Boot

/-- Nothing in memory yet, and a ramdisk whose only file `a` holds one byte. -/
def oneFileRamdisk : BootState Unit where
  ramfs := ramfsInit fun _ => { inUse := false, name := [], data := Buf.zero, size := 0 }
  initrd := [{ name := [0x61], data := [1] }]
  block := ()

theorem validPath_a : ValidPath [slash, 0x61] := ⟨[0x61], rfl, by decide, by decide, by decide⟩

theorem oneFileRamdisk_shows : Shows oneFileRamdisk [slash, 0x61] [1] :=
  shows_of_valid (s := oneFileRamdisk) validPath_a

/-- The byte is replaced. -/
theorem vfs_write_edits_replaced :
    Shows (vfsWriteFile bootTable [slash, 0x61] 0 [5] oneFileRamdisk).2 [slash, 0x61] [5] :=
  (vfs_write_edits_iff ramfsOk_init oneFileRamdisk_shows (by decide)).mpr
    (.inr fun content held => by
      have byte : oneFileRamdisk.initrdContent [slash, 0x61] = some [1] := by decide
      cases held.symm.trans byte
      decide)

/-- A byte is appended to it, and what was there reads as zero afterwards. -/
theorem vfs_write_forgets :
    Shows oneFileRamdisk [slash, 0x61] [1] ∧
      (vfsWriteFile bootTable [slash, 0x61] 1 [2] oneFileRamdisk).1 = some 1 ∧
      ¬Shows (vfsWriteFile bootTable [slash, 0x61] 1 [2] oneFileRamdisk).2 [slash, 0x61]
        (overwrite [1] 1 [2]) := by
  refine ⟨oneFileRamdisk_shows, by decide, ?_⟩
  have shown : vfsReadFile bootTable [slash, 0x61] 0 2
      (vfsWriteFile bootTable [slash, 0x61] 1 [2] oneFileRamdisk).2 = some [0, 2] := by decide
  rintro (edited | ⟨-, absent⟩)
  · have wrong := (edited 0 2).symm.trans shown
    simp [overwrite] at wrong
  · cases (absent 0 2).symm.trans shown

end TangPingOS
