import TangPingOS.Vfs.Boot

/-! # Which filesystem answers

Calls are passed to the mounts in the order of registration, and the two at the root come
before the block filesystems. A call on a path below another mount is answered at the root
just when one of those two accepts it.
-/

namespace TangPingOS

open Lib

/-- The five functions of `kernel/vfs.c` that act on the file at a path. -/
inductive VfsCall where
  | read (offset len : Nat)
  | write (offset : Nat) (bytes : Bytes)
  | truncate (size : Nat)
  | create
  | unlink

def VfsCall.server {σ : Type} (call : VfsCall) (path : Bytes) (table : List (Filesystem σ)) (s : σ) :
    Option (Filesystem σ) :=
  match call with
  | .read offset len => (dispatch (readCall offset len) path table s).1.map Prod.fst
  | .write offset bytes => (dispatch (writeCall offset bytes) path table s).1.map Prod.fst
  | .truncate size => (dispatch (truncateCall size) path table s).1.map Prod.fst
  | .create => (dispatch (truncateCall 0) path table s).1.map Prod.fst
  | .unlink => (dispatch unlinkCall path table s).1.map Prod.fst

theorem VfsCall.server_mem {call : VfsCall} {fs : Filesystem σ} (served : call.server path table s = some fs) :
    fs ∈ table ∧ mountPathMatches fs path := by
  cases call <;>
  · obtain ⟨⟨fs', result⟩, done, rfl⟩ := Option.map_eq_some_iff.mp served
    exact dispatch_mem done

/-- No mount with a longer path leads to the file than the one that answers. -/
def VfsCall.Owned {σ : Type} (call : VfsCall) (path : Bytes) (table : List (Filesystem σ)) (s : σ) : Prop :=
  ∀ fs, call.server path table s = some fs →
    ∀ mount ∈ table, mountPathMatches mount path → mount.path.length ≤ fs.path.length

/-- `/usb`, `/boot`, `/usbdisk` and `/usbboot`. -/
def blockPaths : List Bytes :=
  [[0x2f, 0x75, 0x73, 0x62], [0x2f, 0x62, 0x6f, 0x6f, 0x74],
    [0x2f, 0x75, 0x73, 0x62, 0x64, 0x69, 0x73, 0x6b], [0x2f, 0x75, 0x73, 0x62, 0x62, 0x6f, 0x6f, 0x74]]

theorem validPath_of_blockPaths (block : path ∈ blockPaths) : ValidPath path := by
  rw [← ramfsPathValid_iff]
  revert path
  decide

theorem ValidPath.ne_root (valid : ValidPath path) : path ≠ [slash] := by
  obtain ⟨name, rfl, long, -⟩ := valid
  rintro same
  cases same
  simp at long

/-- The component that a mount path of one component takes from a path. -/
theorem ValidPath.component {mount rest : Bytes} (valid : ValidPath mount)
    (ends : rest = [] ∨ rest.head? = some slash) :
    mount = slash :: (mount ++ rest).tail.takeWhile fun c => c != slash := by
  obtain ⟨name, rfl, -, -, clean⟩ := valid
  have kept : ∀ c ∈ name, (c != slash) := by
    intro c inside
    rw [bne_iff_ne]
    rintro rfl
    exact clean inside
  have stops : rest.takeWhile (fun c => c != slash) = [] := by
    rcases ends with rfl | first
    · rfl
    · obtain ⟨more, rfl⟩ := List.head?_eq_some_iff.mp first
      simp
  rw [List.cons_append, List.tail_cons, List.takeWhile_append_of_pos kept, stops, List.append_nil]

section Owners

variable {β : Type} {s : BootState β} {path : Bytes} {blocks : List (Filesystem (BootState β))}

/-- Two mounts below the root that lead to one path have the same mount path. -/
theorem mount_unique {a b : Filesystem σ} (valid_a : ValidPath a.path) (valid_b : ValidPath b.path)
    (reached_a : mountPathMatches a path) (reached_b : mountPathMatches b path) : a.path = b.path := by
  obtain ⟨-, atRoot | ⟨rest_a, same_a, ends_a⟩⟩ := mountPathMatches_iff.mp reached_a
  · exact absurd atRoot valid_a.ne_root
  · obtain ⟨-, atRoot | ⟨rest_b, same_b, ends_b⟩⟩ := mountPathMatches_iff.mp reached_b
    · exact absurd atRoot valid_b.ne_root
    · rw [valid_a.component ends_a, valid_b.component ends_b, ← same_a, ← same_b]

/-- The mounts of the whole table: at the root or at a path of one component. -/
theorem mount_cases (block : ∀ fs ∈ blocks, fs.path ∈ blockPaths) {fs : Filesystem (BootState β)}
    (member : fs ∈ bootTable ++ blocks) : fs.path = [slash] ∨ ValidPath fs.path := by
  rcases List.mem_append.mp member with boot | later
  · simp only [bootTable, List.mem_cons, List.not_mem_nil, or_false] at boot
    rcases boot with rfl | rfl | rfl
    · exact .inr (ramfsPathValid_iff.mp (by simp [devfs]; decide))
    · exact .inl rfl
    · exact .inl rfl
  · exact .inr (validPath_of_blockPaths (block fs later))

def DevfsServes (path : Bytes) : Prop :=
  mountPathMatches (devfs (β := Unit)) path ∧
    (devfsRead (mountLocalPath (devfs (β := Unit)) path)).isSome

/-- What the filesystems at the root do with a call: files are read where one of them has the file and
    the devices do not; otherwise it is the memory filesystem that has it or has room for it. -/
def VfsCall.RootAccepts (call : VfsCall) (path : Bytes) (s : BootState β) : Prop :=
  match call with
  | .read _ _ => ¬DevfsServes path ∧
      ((s.ramfs.files path).isSome ∨ (s.initrdContent path).isSome)
  | .write offset bytes => ValidPath path ∧ offset + bytes.length ≤ ramfsFileMaxSize ∧
      FileMap.Editable ramfsLimits s.ramfs.files path
  | .truncate size => ValidPath path ∧ size ≤ ramfsFileMaxSize ∧
      FileMap.Editable ramfsLimits s.ramfs.files path
  | .create => ValidPath path ∧ FileMap.Editable ramfsLimits s.ramfs.files path
  | .unlink => (s.ramfs.files path).isSome

def BelowMount (path : Bytes) (table : List (Filesystem (BootState β))) : Prop :=
  ∃ mount ∈ table, mount.path ≠ [slash] ∧ mountPathMatches mount path

def AnsweredAtRoot {α : Type} (call : Filesystem (BootState β) → Option (Bytes → BootState β → Option α × BootState β))
    (path : Bytes) (table : List (Filesystem (BootState β))) (s : BootState β) : Prop :=
  ∃ fs, (dispatch call path table s).1.map Prod.fst = some fs ∧ fs.path = [slash]

variable {α : Type} {call : Filesystem (BootState β) → Option (Bytes → BootState β → Option α × BootState β)}
  {f : Bytes → BootState β → Option α × BootState β} {rest : List (Filesystem (BootState β))}

theorem answeredAtRoot_blocks (block : ∀ fs ∈ blocks, fs.path ∈ blockPaths) :
    ¬AnsweredAtRoot call path blocks s := by
  rintro ⟨fs, served, atRoot⟩
  obtain ⟨⟨fs', result⟩, done, rfl⟩ := Option.map_eq_some_iff.mp served
  have member := (dispatch_mem done).1
  exact (validPath_of_blockPaths (block _ member)).ne_root atRoot

/-- A filesystem at the root is asked, and the ones behind it only if it refuses. -/
theorem answeredAtRoot_cons {fs : Filesystem (BootState β)} (atRoot : fs.path = [slash])
    (given : call fs = some f) (absolute : path.head? = some slash) :
    AnsweredAtRoot call path (fs :: rest) s ↔
      (f path s).1.isSome ∨ AnsweredAtRoot call path rest (f path s).2 := by
  obtain ⟨reached, same⟩ := root_reached atRoot absolute
  cases ran : f path s with
  | mk result s' =>
    cases result with
    | some result =>
      have done : dispatch call path (fs :: rest) s = (some (fs, result), s') :=
        dispatch_done given reached (by rw [same, ran])
      exact iff_of_true ⟨fs, by rw [done]; rfl, atRoot⟩ (.inl rfl)
    | none =>
      have failed : dispatch call path (fs :: rest) s = dispatch call path rest s' :=
        dispatch_failed given reached (by rw [same, ran])
      simp [AnsweredAtRoot, failed]

/-- A function that only the memory filesystem has at the root. -/
theorem answeredAtRoot_iff (noDevices : call devfs = none) (noRamdisk : call initrd = none)
    (given : call ramfs = some f) (absolute : path.head? = some slash)
    (block : ∀ fs ∈ blocks, fs.path ∈ blockPaths) :
    AnsweredAtRoot call path (bootTable ++ blocks) s ↔ (f path s).1.isSome := by
  have past : ∀ s, dispatch call path (initrd :: blocks) s = dispatch call path blocks s := fun s =>
    dispatch_skip (.inl noRamdisk)
  have first : dispatch call path (bootTable ++ blocks) s
      = dispatch call path (ramfs :: initrd :: blocks) s := dispatch_skip (.inl noDevices)
  have later : ¬AnsweredAtRoot call path (initrd :: blocks) (f path s).2 := by
    unfold AnsweredAtRoot
    rw [past]
    exact answeredAtRoot_blocks block
  unfold AnsweredAtRoot
  rw [first]
  exact (answeredAtRoot_cons rfl given absolute).trans (or_iff_left later)

theorem answeredAtRoot_read (absolute : path.head? = some slash) (block : ∀ fs ∈ blocks, fs.path ∈ blockPaths) :
    AnsweredAtRoot (readCall offset len) path (bootTable ++ blocks) s ↔
      VfsCall.RootAccepts (.read offset len) path s := by
  have fromRamfs : (ramfsRead path offset len s.ramfs).isSome = (s.ramfs.files path).isSome := by
    rw [ramfsRead_refines, FileMap.read, Option.isSome_map]
  have fromInitrd : (initrdReadFile path offset len s.initrd).isSome
      = (s.initrdContent path).isSome := by
    rw [initrdReadFile_eq, Option.isSome_map]
  have behind : AnsweredAtRoot (readCall offset len) path (ramfs :: initrd :: blocks) s ↔
      (s.ramfs.files path).isSome ∨ (s.initrdContent path).isSome := by
    rw [answeredAtRoot_cons (f := fun path s => (ramfsRead path offset len s.ramfs, s)) rfl rfl absolute,
      answeredAtRoot_cons (f := fun path s => (initrdReadFile path offset len s.initrd, s)) rfl rfl
        absolute, fromRamfs, fromInitrd]
    simp [answeredAtRoot_blocks block]
  by_cases serves : DevfsServes path
  · obtain ⟨bytes, found⟩ := Option.isSome_iff_exists.mp serves.2
    have done : dispatch (readCall offset len) path (bootTable ++ blocks) s = (some (devfs, bytes), s) :=
      dispatch_done (f := fun path s => (devfsRead path, s)) rfl serves.1
        (congrArg (fun r => (r, s)) found)
    refine iff_of_false ?_ fun accepts => accepts.1 serves
    rintro ⟨fs, served, atRoot⟩
    rw [done] at served
    cases served
    cases atRoot
  · have past : dispatch (readCall offset len) path (bootTable ++ blocks) s
        = dispatch (readCall offset len) path (ramfs :: initrd :: blocks) s := by
      cases reached : mountPathMatches (devfs (β := β)) path with
      | false => exact dispatch_skip (.inr reached)
      | true =>
        have nothing := Option.not_isSome_iff_eq_none.mp fun found => serves ⟨reached, found⟩
        exact dispatch_failed (f := fun path s => (devfsRead path, s)) rfl reached
          (congrArg (fun r => (r, s)) nothing)
    have accepts : VfsCall.RootAccepts (.read offset len) path s ↔
        (s.ramfs.files path).isSome ∨ (s.initrdContent path).isSome :=
      and_iff_right serves
    rw [accepts, ← behind]
    unfold AnsweredAtRoot
    rw [past]

/-- A call on an absolute path is answered at the root just if a filesystem there accepts it. -/
theorem VfsCall.server_root (ok : RamfsOk s.ramfs) (absolute : path.head? = some slash)
    (block : ∀ fs ∈ blocks, fs.path ∈ blockPaths) (call : VfsCall) :
    (∃ fs, call.server path (bootTable ++ blocks) s = some fs ∧ fs.path = [slash]) ↔
      call.RootAccepts path s := by
  have truncates : ∀ size, AnsweredAtRoot (truncateCall size) path (bootTable ++ blocks) s ↔
      ValidPath path ∧ size ≤ ramfsFileMaxSize ∧
        FileMap.Editable ramfsLimits s.ramfs.files path := by
    intro size
    have agrees := ok.agrees.truncate path size
    rw [answeredAtRoot_iff (f := fun path => succeeded (onRamfs (ramfsTruncate path size))) rfl rfl rfl
      absolute block, succeeded_isSome, onRamfs, agrees]
    exact FileMap.truncate_iff
  cases call with
  | read offset len => exact answeredAtRoot_read absolute block
  | write offset bytes =>
    have agrees := ok.agrees.write path offset bytes
    refine (answeredAtRoot_iff (f := fun path => onRamfs (ramfsWrite path offset bytes)) rfl rfl rfl
      absolute block).trans ?_
    rw [onRamfs, agrees]
    exact FileMap.write_isSome_iff
  | truncate size => exact truncates size
  | create =>
    refine (truncates 0).trans ?_
    simp [VfsCall.RootAccepts]
  | unlink =>
    have agrees := ok.agrees.unlink path
    refine (answeredAtRoot_iff (f := fun path => succeeded (onRamfs (ramfsUnlink path))) rfl rfl rfl
      absolute block).trans ?_
    rw [succeeded_isSome, onRamfs, agrees]
    exact FileMap.unlink_iff

/-- Every path belongs to the longest mount that leads to it, except where a call below a mount is
    accepted at the root. -/
theorem mounts_own_iff (ok : RamfsOk s.ramfs) (block : ∀ fs ∈ blocks, fs.path ∈ blockPaths)
    (path : Bytes) (call : VfsCall) :
    call.Owned path (bootTable ++ blocks) s ↔
      ¬(BelowMount path (bootTable ++ blocks) ∧ call.RootAccepts path s) := by
  constructor
  · rintro owned ⟨⟨mount, member, deeper, reached⟩, accepts⟩
    have absolute := (mountPathMatches_iff.mp reached).1
    obtain ⟨fs, served, atRoot⟩ := (call.server_root ok absolute block).mpr accepts
    have short := owned fs served mount member reached
    rcases mount_cases block member with same | valid
    · exact deeper same
    · obtain ⟨name, same, long, -⟩ := valid
      rw [atRoot, same] at short
      simp only [List.length_cons, List.length_nil] at short
      omega
  · intro free fs served mount member reached
    have absolute := (mountPathMatches_iff.mp reached).1
    obtain ⟨present, reached_fs⟩ := call.server_mem served
    rcases mount_cases block member with atRoot | valid
    · rcases mount_cases block present with atRoot_fs | valid_fs
      · rw [atRoot, atRoot_fs]
      · obtain ⟨name, same, long, -⟩ := valid_fs
        rw [atRoot, same]
        simp only [List.length_cons, List.length_nil]
        omega
    · rcases mount_cases block present with atRoot_fs | valid_fs
      · exact absurd ⟨⟨mount, member, valid.ne_root, reached⟩,
          (call.server_root ok absolute block).mp ⟨fs, served, atRoot_fs⟩⟩ free
      · rw [mount_unique valid valid_fs reached reached_fs]

end Owners

/-- A block filesystem at `/usb` with the file `/a` of one byte, on which nothing can be made. -/
def smallUsb : Filesystem (BootState Unit) where
  path := [0x2f, 0x75, 0x73, 0x62]
  read path offset len _ := if path = [0x2f, 0x61] then some ((([1] : Bytes).drop offset).take len) else none
  write := some fun _ _ _ s => (none, s)
  size := some fun path _ => if path = [0x2f, 0x61] then some 1 else none
  truncate := some fun _ _ s => (false, s)
  unlink := some fun _ s => (false, s)

theorem smallUsb_block : ∀ fs ∈ [smallUsb], fs.path ∈ blockPaths := by
  simp [smallUsb, blockPaths]

/-- `/usb/a`. -/
def usbFile : Bytes := [0x2f, 0x75, 0x73, 0x62, 0x2f, 0x61]

/-- The file is read from the mount that it belongs to. -/
theorem mounts_own_usb :
    (VfsCall.server (.read 0 16) usbFile (bootTable ++ [smallUsb]) oneFileRamdisk).map Filesystem.path
        = some smallUsb.path ∧
      VfsCall.Owned (.read 0 16) usbFile (bootTable ++ [smallUsb]) oneFileRamdisk := by
  refine ⟨by decide, (mounts_own_iff ramfsOk_init smallUsb_block _ _).mpr fun stolen => ?_⟩
  have neither : (oneFileRamdisk.ramfs.files usbFile).isSome = false ∧
      (oneFileRamdisk.initrdContent usbFile).isSome = false := by decide
  rcases stolen.2.2 with held | held
  · exact Bool.false_ne_true (neither.1.symm.trans held)
  · exact Bool.false_ne_true (neither.2.symm.trans held)

/-- Creating a file under the name of a mount point makes one in memory. -/
theorem mount_point_stolen :
    ¬VfsCall.Owned .create [0x2f, 0x75, 0x73, 0x62] (bootTable ++ [smallUsb]) oneFileRamdisk := by
  intro owned
  have served : VfsCall.server .create [0x2f, 0x75, 0x73, 0x62] (bootTable ++ [smallUsb]) oneFileRamdisk
      = some ramfs := rfl
  have short := owned ramfs served smallUsb (by simp) (by decide)
  revert short
  decide

end TangPingOS
