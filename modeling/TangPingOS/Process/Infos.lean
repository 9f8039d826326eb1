import TangPingOS.Devices.BlockLayer
import TangPingOS.Process.Usercopy
import TangPingOS.Vfs.Listing

/-! # System calls that report something

`syscall_getdents`, `syscall_task_info`, `syscall_block_info` and `syscall_mount_info` of
`kernel/syscall.c`. Each fills a structure on the kernel stack field by field and copies
the whole of it to the caller. A text field is filled up to its terminating zero: the
bytes behind it are those that the stack held before, and they go to the caller too.

What a structure holds before it is filled is a parameter, as a function of the byte. In
`vfs_list_dir` that structure is the candidate of the round that finds the entry; the
caller's own is then assigned as a whole.
-/

namespace TangPingOS

open Lib

abbrev Stale := Nat → UInt8

/-- A text field of `size` bytes at offset `base` of a structure, after a bounded string copy into it. -/
def textField (base size : Nat) (text : Bytes) (stale : Stale) : Bytes :=
  (List.range size).map fun i =>
    if i < (text.take (size - 1)).length then (text.take (size - 1)).getD i 0
    else if i = (text.take (size - 1)).length then 0
    else stale (base + i)

/-- `VFS_DIRENT_TYPE_FILE` and so on. -/
def DirentType.code : DirentType → Nat
  | .file => 1
  | .dir => 2
  | .device => 3

/-- `struct vfs_dirent`. -/
def Dirent.bytes (entry : Dirent) (stale : Stale) : Bytes :=
  textField 0 vfsDirentNameMax entry.name stale ++ le64 entry.type.code ++ le64 entry.size

def direntSize : Nat := vfsDirentNameMax + 16

/-- `enum task_state`. -/
def TaskState.code : TaskState → Nat
  | .runnable => 0
  | .sleeping => 1
  | .waitingInput => 2
  | .stopped => 3

/-- `struct scheduler_task_info`. -/
def Task.infoBytes (task : Task) (stale : Stale) : Bytes :=
  le64 task.pid ++ le64 task.state.code ++ le64 task.exitStatus ++ le64 task.switches ++
    textField 32 taskNameMax task.name stale

def taskInfoSize : Nat := 32 + taskNameMax

/-- `scheduler_task_info`: none for the result 0. -/
def schedulerTaskInfo (index : Nat) (k : Kernel) : Option Task := k.tasks[index]?

/-- `struct block_device_info`. -/
def BlockLayer.BlockDeviceInfo.bytes (info : BlockLayer.BlockDeviceInfo) (stale : Stale) : Bytes :=
  textField 0 BlockLayer.blockDeviceNameMax info.name stale ++ le64 info.blockSize ++ le64 info.blockCount ++
    le64 info.writable.toNat

def blockInfoSize : Nat := BlockLayer.blockDeviceNameMax + 24

/-- `struct vfs_mount_info`. -/
def MountInfo.bytes (info : MountInfo) (stale : Stale) : Bytes :=
  textField 0 vfsMountNameMax info.name stale ++
    textField vfsMountNameMax vfsMountPathMax info.path stale ++
    textField (vfsMountNameMax + vfsMountPathMax) vfsMountSourceMax info.source stale ++
    le64 info.writable.toNat

def mountInfoSize : Nat := vfsMountNameMax + vfsMountPathMax + vfsMountSourceMax + 8

/-- What a call leaves: its result, the bytes that it has `copy_to_user` copy, if any, and the memory. -/
structure InfoResult where
  result : Nat
  copied : Option Bytes
  machine : Machine

/-- The end of the calls. A null pointer is refused by `copy_to_user`. -/
def copyOut (buffer : Nat) (bytes : Bytes) (success : Nat) (m : Machine) : InfoResult :=
  let (done, m) := copyToUser buffer bytes m
  { result := if done then success else u64Max
    copied := if buffer = 0 then none else some bytes
    machine := m }

def syscallGetdents {σ : Type} (table : List (MountedFs σ)) (s : σ) (path index buffer len : Nat)
    (stale : Stale) (m : Machine) : InfoResult :=
  if len < direntSize then ⟨u64Max, none, m⟩
  else
    match copyStringFromUser path syscallPathMax m with
    | none => ⟨u64Max, none, m⟩
    | some path =>
      if !usercopyValidateRange buffer direntSize true m then ⟨u64Max, none, m⟩
      else
        match vfsListDir table path index s with
        | none => ⟨0, none, m⟩
        | some entry => copyOut buffer (entry.bytes stale) 1 m

/-- The calls that report on an entry of a table of the kernel: `value` is the entry, if there is one, and
    `absent` the result if there is none. -/
def reportOut {α : Type} (buffer len size : Nat) (value : Option α) (bytes : α → Bytes) (absent success : Nat)
    (m : Machine) : InfoResult :=
  if len < size ∨ !usercopyValidateRange buffer size true m then ⟨u64Max, none, m⟩
  else
    match value with
    | none => ⟨absent, none, m⟩
    | some a => copyOut buffer (bytes a) success m

def syscallTaskInfo (index buffer len : Nat) (stale : Stale) (k : Kernel) : InfoResult :=
  reportOut buffer len taskInfoSize (schedulerTaskInfo index k) (fun task => task.infoBytes stale) 0 1 k.machine

def syscallBlockInfo {σ : Type} (devices : List (BlockLayer.BlockDevice σ)) (index buffer len : Nat)
    (stale : Stale) (m : Machine) : InfoResult :=
  reportOut buffer len blockInfoSize (BlockLayer.blockGetInfo devices index) (fun info => info.bytes stale)
    u64Max 0 m

def syscallMountInfo {σ : Type} (table : List (MountedFs σ)) (index buffer len : Nat) (stale : Stale)
    (m : Machine) : InfoResult :=
  reportOut buffer len mountInfoSize (vfsMountInfo table index) (fun info => info.bytes stale) u64Max 0 m

/-! ## What is left of the stack -/

def Leakless {α : Type} (f : Stale → α) : Prop := ∀ stale stale', f stale = f stale'

def Fills (size : Nat) (text : Bytes) : Prop := size - 1 ≤ text.length

@[simp] theorem length_textField : (textField base size text stale).length = size := by
  simp [textField]

theorem textField_leakless (some_ : 0 < size) : Leakless (textField base size text) ↔ Fills size text := by
  constructor
  · intro same
    by_contra short
    unfold Fills at short
    have length : (text.take (size - 1)).length = text.length := by
      rw [List.length_take]
      omega
    -- the byte behind the zero
    have byte := congrArg (fun bytes => bytes[text.length + 1]?) (same (fun _ => 0) fun _ => 1)
    have inside : text.length + 1 < size := by omega
    simp [textField, length, List.getElem?_range inside] at byte
  · intro full stale stale'
    have length := List.length_take_of_le full
    apply List.map_congr_left
    intro i member
    have low := List.mem_range.mp member
    split
    · rfl
    · rw [if_pos (by omega), if_pos (by omega)]

theorem Leakless.append_right {rest : Bytes} : (Leakless fun stale => f stale ++ rest) ↔ Leakless f := by
  constructor
  · intro same stale stale'
    exact List.append_cancel_right (same stale stale')
  · intro same stale stale'
    simp only
    rw [same stale stale']

theorem Leakless.append_left {first : Bytes} : (Leakless fun stale => first ++ f stale) ↔ Leakless f := by
  constructor
  · intro same stale stale'
    exact List.append_cancel_left (same stale stale')
  · intro same stale stale'
    simp only
    rw [same stale stale']

theorem Leakless.append {f g : Stale → Bytes} (length : ∀ stale, (f stale).length = size) :
    (Leakless fun stale => f stale ++ g stale) ↔ Leakless f ∧ Leakless g := by
  constructor
  · intro same
    have both := fun stale stale' =>
      List.append_inj (same stale stale') ((length stale).trans (length stale').symm)
    exact ⟨fun stale stale' => (both stale stale').1, fun stale stale' => (both stale stale').2⟩
  · rintro ⟨first, second⟩ stale stale'
    simp only
    rw [first stale stale', second stale stale']

/-- Nothing goes to the caller, or what goes there is independent of the stack. -/
theorem Leakless.map {α : Type} {value : Option α} {f : α → Stale → Bytes} :
    (Leakless fun stale => value.map fun a => f a stale) ↔ ∀ a ∈ value, Leakless (f a) := by
  cases value with
  | none => exact iff_of_true (fun _ _ => rfl) nofun
  | some a => simp [Leakless]

theorem Dirent.leakless (entry : Dirent) : Leakless entry.bytes ↔ Fills vfsDirentNameMax entry.name := by
  unfold Dirent.bytes
  simp only [List.append_assoc]
  exact Leakless.append_right.trans (textField_leakless (by decide))

theorem Task.leakless (task : Task) : Leakless task.infoBytes ↔ Fills taskNameMax task.name :=
  Leakless.append_left.trans (textField_leakless (by decide))

theorem BlockLayer.BlockDeviceInfo.leakless (info : BlockLayer.BlockDeviceInfo) :
    Leakless info.bytes ↔ Fills BlockLayer.blockDeviceNameMax info.name := by
  unfold BlockLayer.BlockDeviceInfo.bytes
  simp only [List.append_assoc]
  exact Leakless.append_right.trans (textField_leakless (by decide))

theorem MountInfo.leakless (info : MountInfo) :
    Leakless info.bytes ↔ Fills vfsMountNameMax info.name ∧ Fills vfsMountPathMax info.path ∧
      Fills vfsMountSourceMax info.source := by
  unfold MountInfo.bytes
  simp only [List.append_assoc]
  rw [Leakless.append fun _ => length_textField, Leakless.append fun _ => length_textField,
    Leakless.append_right, textField_leakless (by decide), textField_leakless (by decide),
    textField_leakless (by decide)]

/-- The caller's buffer takes a structure of `size` bytes. -/
def BufferTakes (buffer len size : Nat) (m : Machine) : Prop :=
  buffer ≠ 0 ∧ size ≤ len ∧ usercopyValidateRange buffer size true m

instance (buffer len size : Nat) (m : Machine) : Decidable (BufferTakes buffer len size m) :=
  inferInstanceAs (Decidable (_ ∧ _ ∧ _))

/-- Where no page table is in the caller's reach, all the bytes arrive. -/
theorem copyOut_arrives (hidden : TablesHidden (vmmCurrentAddressSpace m) m)
    (takes : BufferTakes buffer len bytes.length m) (some_ : 0 < bytes.length) (short : bytes.length ≤ pageSize) :
    (copyOut buffer bytes success m).result = success ∧
      userBytes buffer bytes.length (copyOut buffer bytes success m).machine = bytes := by
  obtain ⟨done, read⟩ := copyToUser_read hidden takes.1 short ((usercopyValidateRange_iff some_).mp takes.2.2)
  exact ⟨if_pos done, read⟩

theorem copyOut_copied :
    (copyOut buffer bytes success m).copied = if buffer = 0 then none else some bytes := rfl

theorem reportOut_copied {bytes : α → Bytes} :
    (reportOut buffer len size value bytes absent success m).copied
      = (if BufferTakes buffer len size m then value else none).map bytes := by
  unfold reportOut
  by_cases refused : len < size ∨ (!usercopyValidateRange buffer size true m)
  · rw [if_pos refused, if_neg ?_]
    · rfl
    · rintro ⟨-, long, valid⟩
      rcases refused with short | invalid
      · omega
      · simp [valid] at invalid
  · rw [if_neg refused]
    simp only [not_or, Nat.not_lt, Bool.not_eq_true, Bool.not_eq_false'] at refused
    by_cases null : buffer = 0
    · rw [if_neg fun takes => takes.1 null]
      cases value with
      | none => rfl
      | some a => simp [copyOut_copied, null]
    · rw [if_pos ⟨null, refused⟩]
      cases value with
      | none => rfl
      | some a => simp [copyOut_copied, null]

theorem syscallGetdents_copied (s : σ) :
    (syscallGetdents table s path index buffer len stale m).copied
      = (if BufferTakes buffer len direntSize m then
          (copyStringFromUser path syscallPathMax m).bind fun path => vfsListDir table path index s
        else none).map fun entry => entry.bytes stale := by
  cases copied : copyStringFromUser path syscallPathMax m with
  | none =>
    have failed : (syscallGetdents table s path index buffer len stale m).copied = none := by
      simp only [syscallGetdents, copied]
      split <;> rfl
    simp [failed]
  | some p =>
    have same : (syscallGetdents table s path index buffer len stale m).copied
        = (reportOut buffer len direntSize (vfsListDir table p index s) (fun entry => entry.bytes stale) 0 1
          m).copied := by
      simp only [syscallGetdents, reportOut, copied]
      by_cases short : len < direntSize
      · simp [short]
      · cases usercopyValidateRange buffer direntSize true m <;> cases vfsListDir table p index s <;>
          simp [short]
    rw [same, reportOut_copied, Option.bind_some]

/-- A call shows nothing of the stack just if the texts that it copies, if it copies any, fill their
    fields. -/
theorem info_calls_leakless_iff {σ τ : Type} (table : List (MountedFs σ)) (s : σ)
    (devices : List (BlockLayer.BlockDevice τ)) (k : Kernel) (path index buffer len : Nat) :
    ((Leakless fun stale => (syscallGetdents table s path index buffer len stale k.machine).copied) ↔
      (BufferTakes buffer len direntSize k.machine →
        ∀ p entry, copyStringFromUser path syscallPathMax k.machine = some p →
          vfsListDir table p index s = some entry → Fills vfsDirentNameMax entry.name)) ∧
    ((Leakless fun stale => (syscallTaskInfo index buffer len stale k).copied) ↔
      (BufferTakes buffer len taskInfoSize k.machine →
        ∀ task, schedulerTaskInfo index k = some task → Fills taskNameMax task.name)) ∧
    ((Leakless fun stale => (syscallBlockInfo devices index buffer len stale k.machine).copied) ↔
      (BufferTakes buffer len blockInfoSize k.machine →
        ∀ info, BlockLayer.blockGetInfo devices index = some info →
          Fills BlockLayer.blockDeviceNameMax info.name)) ∧
    ((Leakless fun stale => (syscallMountInfo table index buffer len stale k.machine).copied) ↔
      (BufferTakes buffer len mountInfoSize k.machine →
        ∀ info, vfsMountInfo table index = some info →
          Fills vfsMountNameMax info.name ∧ Fills vfsMountPathMax info.path ∧
            Fills vfsMountSourceMax info.source)) := by
  refine ⟨?_, ?_, ?_, ?_⟩
  · simp only [syscallGetdents_copied, Leakless.map, Dirent.leakless]
    by_cases takes : BufferTakes buffer len direntSize k.machine
    · simp only [takes, if_true, Option.mem_def, Option.bind_eq_some_iff, forall_exists_index, and_imp,
        true_implies]
      exact forall_comm
    · simp [takes]
  · simp only [syscallTaskInfo, reportOut_copied, Leakless.map, Task.leakless]
    by_cases takes : BufferTakes buffer len taskInfoSize k.machine <;> simp [takes]
  · simp only [syscallBlockInfo, reportOut_copied, Leakless.map, BlockLayer.BlockDeviceInfo.leakless]
    by_cases takes : BufferTakes buffer len blockInfoSize k.machine <;> simp [takes]
  · simp only [syscallMountInfo, reportOut_copied, Leakless.map, MountInfo.leakless]
    by_cases takes : BufferTakes buffer len mountInfoSize k.machine <;> simp [takes]

/-- A user sees the text `/` at every page. Every entry of page `p` leads to page `p + 1`. -/
def slashMachine : Machine :=
  { blankMachine with mem := fun p _ => if p = 5 then 0x2f else (p + 1) * 4096 + 7, cr3 := 4096 }

def bareBoot : BootState Unit where
  ramfs := ramfsInit fun _ => { inUse := false, name := [], data := Buf.zero, size := 0 }
  initrd := []
  block := ()

/-- The first entry of the root directory is `dev`, and what follows its zero is what was on the stack. -/
theorem getdents_leaks :
    (syscallGetdents bootMounts bareBoot 0x10000 0 0x20000 80 (fun _ => 0) slashMachine).copied ≠
      (syscallGetdents bootMounts bareBoot 0x10000 0 0x20000 80 (fun _ => 1) slashMachine).copied := by
  decide +kernel

end TangPingOS
