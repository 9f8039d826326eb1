import TangPingOS.Process.Scheduler

/-! # Creating processes, and runs of the kernel

`user_spawn_from_vfs_with_args` and `user_init_from_modules`, and the events that a
run of the kernel is made of. What the VFS says about a program file is a parameter:
the result of `vfs_file_size` and the bytes that `vfs_read_file` stores.
-/

namespace TangPingOS

open Lib

/-- A program file as the VFS presents it: its size, `u64Max` if there is none, and the bytes that
    reading the whole of it yields. -/
structure ProgramFile where
  size : Nat
  data : Option Bytes

/-- `copy_task_name` of `kernel/user.c`: what follows the last slash that is not at the end. -/
def taskNameOf : Bytes → Bytes → Bytes
  | name, [] => name
  | name, c :: rest => taskNameOf (if c = 0x2f ∧ rest ≠ [] then rest else name) rest

def heapLimitOf (brkStart : Nat) : Nat :=
  let limit := wrap64 (brkStart + userHeapSize)
  if userStackTop - userStackSize - pageSize < limit then userStackTop - userStackSize - pageSize
  else limit

def buildAddressSpace (image : Bytes) (m : Machine) : Except Panic (Nat × UserImage × Machine) := do
  let (cr3Phys, m) ← vmmCreateAddressSpace m
  let (loaded, m) ← loadElfImage image cr3Phys m
  let m ← mapUserStack cr3Phys m
  return (cr3Phys, loaded, m)

/-- The end of a spawn that failed after its address space was built. -/
def abandonSpawn (buffer cr3Phys : Nat) (k : Kernel) : Except Panic (Bool × Kernel) := do
  let m ← kfree buffer k.machine
  let (_, m) ← vmmDestroyUserAddressSpace cr3Phys m
  return (false, k.withMachine m)

def spawnImage (path args image : Bytes) (buffer : Nat) (k : Kernel) : Except Panic (Bool × Kernel) := do
  let (cr3Phys, loaded, m) ← buildAddressSpace image k.machine
  match buildInitialUserStack cr3Phys path args m with
  | (none, m) => abandonSpawn buffer cr3Phys (k.withMachine m)
  | (some stack, m) =>
    let (created, k) ← schedulerCreateUserTask (taskNameOf path path) cr3Phys loaded.entry
      stack.stackTop stack.argc stack.argv loaded.brkStart (heapLimitOf loaded.brkStart)
      (k.withMachine m)
    if created then
      let m ← kfree buffer k.machine
      return (true, k.withMachine m)
    else abandonSpawn buffer cr3Phys k

/-- `user_spawn_from_vfs_with_args`. The Boolean is false for the result -1. -/
def userSpawnFromVfsWithArgs (path args : Bytes) (file : ProgramFile) (k : Kernel) : Except Panic (Bool × Kernel) :=
  if file.size = u64Max ∨ file.size = 0 ∨ userSpawnImageMax < file.size then .ok (false, k)
  else do
    let (buffer, m) ← kmalloc file.size k.machine
    if buffer = 0 then return (false, k.withMachine m)
    else
      match file.data with
      | some image =>
        if image.length = file.size then spawnImage path args image buffer (k.withMachine m)
        else
          let m ← kfree buffer m
          return (false, k.withMachine m)
      | none =>
        let m ← kfree buffer m
        return (false, k.withMachine m)

/-- `user_init_from_modules`, once the module is found. -/
def userInitFromModules (image : Bytes) (k : Kernel) : Except Panic Kernel := do
  let (cr3Phys, loaded, m) ← buildAddressSpace image k.machine
  let (created, k) ← schedulerCreateUserTask [0x69, 0x6e, 0x69, 0x74] cr3Phys loaded.entry userStackTop
    0 0 loaded.brkStart (heapLimitOf loaded.brkStart) (k.withMachine m)
  if created then return k else .error .createInitTask

/-- What can happen to the kernel. `brk`, `exit` and the like are calls of the current task. -/
inductive KernelEvent where
  | init (image : Bytes)
  | spawn (path args : Bytes) (file : ProgramFile)
  | createTask (name : Bytes) (trampoline entry arg : Nat)
  | brk (newBreak : Nat)
  | exit (frame status : Nat)
  | fault (frame vector : Nat)
  | yield (frame : Nat)
  | sleep (frame ticks : Nat)
  | waitForInput (frame : Nat)
  | wakeInputWaiters
  | tick (frame : Nat)

def KernelEvent.run (k : Kernel) : KernelEvent → Except Panic Kernel
  | .init image => userInitFromModules image k
  | .spawn path args file => (userSpawnFromVfsWithArgs path args file k).map Prod.snd
  | .createTask name trampoline entry arg =>
    (schedulerCreateTask name trampoline entry arg k).map Prod.snd
  | .brk newBreak => (schedulerSetCurrentBrk newBreak k).map Prod.snd
  | .exit frame status => (schedulerExitCurrent frame status k).map Prod.snd
  | .fault frame vector => (schedulerFaultCurrent frame vector k).map Prod.snd
  | .yield frame => .ok (schedulerYieldCurrent frame k).2
  | .sleep frame ticks => .ok (schedulerSleepCurrent frame ticks k).2
  | .waitForInput frame => .ok (schedulerWaitCurrentForInput frame k).2
  | .wakeInputWaiters => .ok (schedulerWakeInputWaiters k)
  | .tick frame => (schedulerOnTimerTick frame k).map Prod.snd

def runEvents (k : Kernel) (events : List KernelEvent) : Except Panic Kernel :=
  events.foldlM KernelEvent.run k

end TangPingOS
