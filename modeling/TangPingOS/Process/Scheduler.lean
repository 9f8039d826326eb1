import TangPingOS.Process.Elf

/-! # Tasks

The task table of `kernel/scheduler.c` and the operations that change it: creation,
the timer tick, yielding, sleeping, waiting for input, exit and faults, and `brk`.
Frames are the addresses at which a task's registers are saved; a null frame is 0.
The registers that a new frame is filled with are kept beside it. What is on a kernel
stack is not modelled otherwise, and log lines are left out.
-/

namespace TangPingOS

open Lib

def maxTasks : Nat := 8
def taskStackSize : Nat := 16 * 1024
def taskQuantumTicks : Nat := 25
def maxPendingStackFree : Nat := 8
def taskMaxFds : Nat := 11
def taskMaxOpenFiles : Nat := 8
def taskNameMax : Nat := 32

/-- Size of `struct interrupt_frame`: 22 words. -/
def interruptFrameSize : Nat := 22 * 8

inductive TaskState where
  | runnable
  | sleeping
  | waitingInput
  | stopped
  deriving DecidableEq, Repr

inductive TaskFileType where
  | none
  | vfs
  | tty
  deriving DecidableEq, Repr

structure TaskFile where
  inUse : Bool := false
  openFileIndex : Int := -1
  deriving DecidableEq, Repr

structure TaskOpenFile where
  inUse : Bool := false
  refCount : Nat := 0
  type : TaskFileType := .none
  path : Bytes := []
  offset : Nat := 0
  append : Bool := false
  deriving DecidableEq, Repr

/-- The registers that a new task starts with. -/
structure Registers where
  rip : Nat := 0
  rdi : Nat := 0
  rsi : Nat := 0
  cs : Nat := 0
  rflags : Nat := 0
  rsp : Nat := 0
  ss : Nat := 0

/-- `struct task`, as `memset_local` leaves it. The file table of a zeroed task has index 0 in
    every slot. -/
structure Task where
  pid : Nat := 0
  name : Bytes := []
  stack : Nat := 0
  stackSize : Nat := 0
  kernelStackTop : Nat := 0
  cr3 : Nat := 0
  frame : Nat := 0
  registers : Registers := {}
  state : TaskState := .runnable
  brkStart : Nat := 0
  brkCurrent : Nat := 0
  brkLimit : Nat := 0
  wakeTick : Nat := 0
  exitStatus : Nat := 0
  switches : Nat := 0
  resourcesReleased : Bool := false
  files : List TaskFile := List.replicate taskMaxFds { openFileIndex := 0 }
  openFiles : List TaskOpenFile := List.replicate taskMaxOpenFiles {}

/-- What `current_task` points to. -/
inductive Current where
  | none
  | boot
  | task (index : Nat)
  deriving DecidableEq, Repr

structure Kernel where
  machine : Machine
  /-- `tasks[0 .. task_count)`. -/
  tasks : List Task := []
  bootTask : Task := {}
  current : Current := .none
  currentTaskIndex : Nat := 0
  quantumTicks : Nat := 0
  tickCount : Nat := 0
  nextPid : Nat := 1
  ready : Bool := false
  pendingStackFree : List Nat := []
  /-- The stack pointer loaded on entry from user mode. -/
  kernelStack : Nat := 0

namespace Kernel

def withMachine (k : Kernel) (m : Machine) : Kernel := { k with machine := m }

def taskAt (k : Kernel) : Current → Task
  | .none => {}
  | .boot => k.bootTask
  | .task i => k.tasks.getD i {}

def modifyTask (k : Kernel) (c : Current) (f : Task → Task) : Kernel :=
  match c with
  | .none => k
  | .boot => { k with bootTask := f k.bootTask }
  | .task i => { k with tasks := k.tasks.modify i f }

end Kernel

def schedulerInit (k : Kernel) : Kernel :=
  { k with
    tasks := [], currentTaskIndex := 0, quantumTicks := 0, tickCount := 0, current := .none,
    pendingStackFree := [], ready := true }

def copyTaskName (name : Bytes) : Bytes := name.take (taskNameMax - 1)

def stackTopOf (stack : Nat) : Nat := alignDown (stack + taskStackSize) 16 - 8

/-- `scheduler_create_task`. The Boolean is false for the result -1. -/
def schedulerCreateTask (name : Bytes) (trampoline entry arg : Nat) (k : Kernel) : Except Panic (Bool × Kernel) :=
  if maxTasks ≤ k.tasks.length then .ok (false, k)
  else do
    let (stack, m) ← kmalloc taskStackSize k.machine
    let task : Task :=
      { pid := k.nextPid
        name := copyTaskName name
        stack := stack
        stackSize := taskStackSize
        cr3 := m.kernelCr3
        kernelStackTop := stackTopOf stack
        frame := stackTopOf stack - interruptFrameSize
        registers :=
          { rip := trampoline, rdi := entry, rsi := arg, cs := 0x08, rflags := 0x202,
            rsp := stackTopOf stack, ss := 0x10 } }
    return (true, { k with machine := m, tasks := k.tasks ++ [task], nextPid := wrap64 (k.nextPid + 1) })

def schedulerCreateUserTask (name : Bytes) (cr3Phys entry userStackTop arg0 arg1 brkStart brkLimit : Nat)
    (k : Kernel) : Except Panic (Bool × Kernel) :=
  if maxTasks ≤ k.tasks.length then .ok (false, k)
  else do
    let (stack, m) ← kmalloc taskStackSize k.machine
    let task : Task :=
      { pid := k.nextPid
        name := copyTaskName name
        stack := stack
        stackSize := taskStackSize
        cr3 := cr3Phys
        brkStart := brkStart
        brkCurrent := brkStart
        brkLimit := brkLimit
        kernelStackTop := stackTopOf stack
        frame := stackTopOf stack - interruptFrameSize
        registers :=
          { rip := entry, rdi := arg0, rsi := arg1, cs := 0x1b, rflags := 0x202,
            rsp := userStackTop, ss := 0x23 } }
    return (true, { k with machine := m, tasks := k.tasks ++ [task], nextPid := wrap64 (k.nextPid + 1) })

/-- The loop of `next_runnable_task`, `left` rounds: the index of a runnable task, and where the
    search stopped. -/
def searchRunnable (tasks : List Task) : Nat → Nat → Option Nat × Nat
  | 0, index => (none, index)
  | left + 1, index =>
    let index := (index + 1) % tasks.length
    if (tasks.getD index {}).state = .runnable then (some index, index)
    else searchRunnable tasks left index

def nextRunnableTask (k : Kernel) : Current × Kernel :=
  match searchRunnable k.tasks k.tasks.length k.currentTaskIndex with
  | (some index, stop) => (.task index, { k with currentTaskIndex := stop })
  | (none, stop) => (.boot, { k with currentTaskIndex := stop })

/-- `switch_to_task`, with `switch_task_context`. -/
def switchToTask (next : Current) (k : Kernel) : Nat × Kernel :=
  if next = k.current then ((k.taskAt next).frame, k)
  else
    let k := { k with current := next }.modifyTask next fun task =>
      { task with switches := wrap64 (task.switches + 1) }
    let task := k.taskAt next
    (task.frame,
      { k with
        machine := vmmSwitchAddressSpace task.cr3 k.machine
        kernelStack := task.kernelStackTop })

def ensureBootTask (frame : Nat) (k : Kernel) : Kernel :=
  if k.current ≠ .none then k
  else
    { k with
      bootTask :=
        { name := copyTaskName [0x62, 0x6f, 0x6f, 0x74]
          cr3 := vmmCurrentAddressSpace k.machine
          kernelStackTop := alignDown (frame + interruptFrameSize) 16
          frame := frame }
      current := .boot
      currentTaskIndex := wrap64 (k.tasks.length + u64Max) }

/-- The queueing of a kernel stack in `release_task_resources`. -/
def queueStack (index : Nat) (k : Kernel) : Except Panic Kernel :=
  let task := k.taskAt (.task index)
  if task.stack = 0 then .ok k
  else if maxPendingStackFree ≤ k.pendingStackFree.length then .error .pendingStackFreeQueueFull
  else
    .ok { k.modifyTask (.task index) (fun task =>
            { task with stack := 0, kernelStackTop := 0, frame := 0 }) with
          pendingStackFree := k.pendingStackFree ++ [task.stack] }

/-- `release_task_resources`, for the task at an index of the table. -/
def releaseTaskResources (index : Nat) (k : Kernel) : Except Panic Kernel :=
  let task := k.taskAt (.task index)
  if task.resourcesReleased then .ok k
  else if task.cr3 = 0 ∨ task.cr3 = k.machine.kernelCr3 then
    .ok (k.modifyTask (.task index) fun task => { task with resourcesReleased := true })
  else do
    let (_, m) ← vmmDestroyUserAddressSpace task.cr3 k.machine
    let k := (k.withMachine m).modifyTask (.task index) fun task =>
      { task with
        files := List.replicate taskMaxFds {}
        openFiles := List.replicate taskMaxOpenFiles {}
        cr3 := m.kernelCr3
        resourcesReleased := true }
    queueStack index k

/-- `reclaim_pending_stacks`: the last one queued is freed first. -/
def reclaimPendingStacks (k : Kernel) : Except Panic Kernel := do
  let m ← k.pendingStackFree.reverse.foldlM (fun m stack => kfree stack m) k.machine
  return { k with machine := m, pendingStackFree := [] }

def wakeSleepingTasks (k : Kernel) : Kernel :=
  { k with
    tasks := k.tasks.map fun task =>
      if task.state = .sleeping ∧ task.wakeTick ≤ k.tickCount then { task with state := .runnable }
      else task }

def schedulerOnTimerTick (frame : Nat) (k : Kernel) : Except Panic (Nat × Kernel) :=
  if !k.ready || k.tasks.length == 0 then .ok (frame, k)
  else do
    let k := ensureBootTask frame k
    let k ← reclaimPendingStacks { k with tickCount := wrap64 (k.tickCount + 1) }
    let k := wakeSleepingTasks k
    let k := k.modifyTask k.current fun task => { task with frame := frame }
    let k := { k with quantumTicks := wrap64 (k.quantumTicks + 1) }
    if k.quantumTicks < taskQuantumTicks then return (frame, k)
    else
      let (next, k) := nextRunnableTask { k with quantumTicks := 0 }
      return switchToTask next k

/-- The current task stops running in state `state`; the next runnable one goes on. -/
def leaveCurrent (index frame : Nat) (change : Task → Task) (k : Kernel) : Nat × Kernel :=
  let k := k.modifyTask (.task index) fun task => change { task with frame := frame }
  let (next, k) := nextRunnableTask { k with quantumTicks := 0 }
  switchToTask next k

/-- What `scheduler_exit_current` and `scheduler_fault_current` share. -/
def stopCurrent (index frame status : Nat) (k : Kernel) : Except Panic (Nat × Kernel) := do
  let (nextFrame, k) := leaveCurrent index frame
    (fun task => { task with state := .stopped, exitStatus := status }) k
  let k ← releaseTaskResources index k
  return (nextFrame, k)

def schedulerExitCurrent (frame status : Nat) (k : Kernel) : Except Panic (Nat × Kernel) :=
  match k.current with
  | .task index => stopCurrent index frame status k
  | _ => .ok (frame, k)

def schedulerFaultCurrent (frame vector : Nat) (k : Kernel) : Except Panic (Nat × Kernel) :=
  match k.current with
  | .task index => stopCurrent index frame (wrap64 (128 + vector)) k
  | _ => .error .userFaultWithoutTask

def schedulerYieldCurrent (frame : Nat) (k : Kernel) : Nat × Kernel :=
  match k.current with
  | .task index => leaveCurrent index frame id k
  | _ => (frame, k)

def schedulerSleepCurrent (frame ticks : Nat) (k : Kernel) : Nat × Kernel :=
  if ticks = 0 then schedulerYieldCurrent frame k
  else
    match k.current with
    | .task index =>
      leaveCurrent index frame
        (fun task => { task with state := .sleeping, wakeTick := wrap64 (k.tickCount + ticks) }) k
    | _ => (frame, k)

def schedulerWaitCurrentForInput (frame : Nat) (k : Kernel) : Nat × Kernel :=
  match k.current with
  | .task index => leaveCurrent index frame (fun task => { task with state := .waitingInput }) k
  | _ => (frame, k)

def schedulerWakeInputWaiters (k : Kernel) : Kernel :=
  { k with
    tasks := k.tasks.map fun task =>
      if task.state = .waitingInput then { task with state := .runnable } else task }

/-- `scheduler_set_current_brk`: the break that the call reports. -/
def schedulerSetCurrentBrk (newBreak : Nat) (k : Kernel) : Except Panic (Nat × Kernel) :=
  match k.current with
  | .task index =>
    let task := k.taskAt (.task index)
    if newBreak = 0 then .ok (task.brkCurrent, k)
    else if newBreak < task.brkStart ∨ task.brkLimit < newBreak then .ok (task.brkCurrent, k)
    else do
      let mapStart := alignUp task.brkCurrent pageSize
      let mapEnd := alignUp newBreak pageSize
      let m ← if task.brkCurrent < newBreak then
          mapFreshPages task.cr3 userDataFlags .growUserHeap ((mapEnd - mapStart) / pageSize) mapStart
            k.machine
        else .ok k.machine
      return (newBreak,
        (k.withMachine m).modifyTask (.task index) fun task => { task with brkCurrent := newBreak })
  | _ => .ok (0, k)

end TangPingOS
