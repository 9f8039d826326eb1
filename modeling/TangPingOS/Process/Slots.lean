import TangPingOS.Memory.PageAllocator
import TangPingOS.Process.Turns

/-! # Slots of the task table

`task_count` counts the tasks that were created, not those that are left: nothing gives a
slot back. A run is told apart here by how many tasks it has created.
-/

namespace TangPingOS

open Lib

/-- Calls that may create a task, and what else happens to the kernel. -/
inductive TaskCall where
  | createUser (name : Bytes) (cr3Phys entry userStackTop arg0 arg1 brkStart brkLimit : Nat)
  | event (e : KernelEvent)

def TaskCall.run (k : Kernel) : TaskCall → Except Panic (Bool × Kernel)
  | .createUser name cr3Phys entry userStackTop arg0 arg1 brkStart brkLimit =>
    schedulerCreateUserTask name cr3Phys entry userStackTop arg0 arg1 brkStart brkLimit k
  | .event (.init image) => (userInitFromModules image k).map fun k => (true, k)
  | .event (.spawn path args file) => userSpawnFromVfsWithArgs path args file k
  | .event (.createTask name trampoline entry arg) => schedulerCreateTask name trampoline entry arg k
  | .event e => (e.run k).map fun k => (false, k)

/-- A run from `scheduler_init` on, with the number of tasks created in it. -/
inductive TaskRun (k₀ : Kernel) : Nat → Kernel → Prop where
  | init : TaskRun k₀ 0 (schedulerInit k₀)
  | call {n : Nat} {k k' : Kernel} {created : Bool} (before : TaskRun k₀ n k) (c : TaskCall)
    (ran : c.run k = .ok (created, k')) : TaskRun k₀ (n + created.toNat) k'

def liveTasks (k : Kernel) : Nat := k.tasks.countP fun task => task.state ≠ .stopped

def Grown (created : Bool) (k k' : Kernel) : Prop := k'.tasks.length = k.tasks.length + created.toNat

theorem schedulerOnTimerTick_length
    (ran : schedulerOnTimerTick frame k = .ok (next, k')) : k'.tasks.length = k.tasks.length := by
  have booted : (ensureBootTask frame k).tasks.length = k.tasks.length := by
    unfold ensureBootTask
    split <;> rfl
  obtain ⟨-, rfl⟩ | ⟨-, k₁, ticked, ⟨-, rfl⟩ | ⟨-, rfl⟩⟩ := schedulerOnTimerTick_spec ran
  · rfl
  · exact ticked.length.trans booted
  · exact (resumed_spec k₁).length.trans (ticked.length.trans booted)

theorem KernelEvent.length {e : KernelEvent} (quiet : ¬e.Creates) (run : e.run k = .ok k') :
    k'.tasks.length = k.tasks.length := by
  cases e.effect e.frames_true run with
  | still n still none =>
    obtain rfl := none.resolve_left quiet
    exact still.length
  | leave i left => exact left.length
  | tick frame next same valid ran => exact schedulerOnTimerTick_length ran

/-- Every call leaves the table as long as it was, but for the task that it creates. -/
theorem TaskCall.grown {c : TaskCall} (ran : c.run k = .ok (created, k')) : Grown created k k' := by
  have other : ∀ {e : KernelEvent}, ¬e.Creates → ((e.run k).map fun k => (false, k)) = .ok (created, k') →
      Grown created k k' := by
    intro e quiet ran
    obtain ⟨k₁, ran, same⟩ := map_eq_ok ran
    cases same
    exact e.length quiet ran
  cases c with
  | createUser => exact (Still.schedulerCreateUserTask ran).length
  | event e =>
    cases e with
    | init image =>
      obtain ⟨k₁, ran, same⟩ := map_eq_ok ran
      cases same
      exact (Still.userInitFromModules ran).length
    | spawn => exact (Still.userSpawnFromVfsWithArgs ran).length
    | createTask => exact (Still.schedulerCreateTask ran).length
    | brk newBreak => exact other (e := .brk newBreak) id ran
    | exit frame status => exact other (e := .exit frame status) id ran
    | fault frame vector => exact other (e := .fault frame vector) id ran
    | yield frame => exact other (e := .yield frame) id ran
    | sleep frame ticks => exact other (e := .sleep frame ticks) id ran
    | waitForInput frame => exact other (e := .waitForInput frame) id ran
    | wakeInputWaiters => exact other (e := .wakeInputWaiters) id ran
    | tick frame => exact other (e := .tick frame) id ran

/-- `task_count` is the number of tasks created. -/
theorem TaskRun.length (run : TaskRun k₀ n k) : k.tasks.length = n := by
  induction run with
  | init => rfl
  | call before c ran ih =>
    have grown := c.grown ran
    rw [Grown, ih] at grown
    exact grown

/-- There is memory for the program at `path`, and it is loaded with its arguments: only its task is
    still to be created. -/
def Loaded (path args : Bytes) (file : ProgramFile) (k : Kernel) : Prop :=
  ∃ buffer m image cr3Phys loaded m' stack m'',
    ¬(file.size = u64Max ∨ file.size = 0 ∨ userSpawnImageMax < file.size) ∧
    kmalloc file.size k.machine = .ok (buffer, m) ∧ buffer ≠ 0 ∧
    file.data = some image ∧ image.length = file.size ∧
    buildAddressSpace image m = .ok (cr3Phys, loaded, m') ∧
    buildInitialUserStack cr3Phys path args m' = (some stack, m'')

theorem schedulerCreateUserTask_room {cr3Phys entry userStackTop arg0 arg1 brkStart brkLimit stack k m}
    (memory : kmalloc taskStackSize k.machine = .ok (stack, m)) :
    (∃ k', schedulerCreateUserTask name cr3Phys entry userStackTop arg0 arg1 brkStart brkLimit k
      = .ok (true, k')) ↔ k.tasks.length < maxTasks := by
  unfold schedulerCreateUserTask
  split
  · rename_i full
    simp [Nat.not_lt.mpr full]
  · rename_i room
    rw [memory]
    exact ⟨fun _ => Nat.lt_of_not_le room, fun _ => ⟨_, rfl⟩⟩

theorem schedulerCreateUserTask_result {cr3Phys entry userStackTop arg0 arg1 brkStart brkLimit k k' created}
    (ran : schedulerCreateUserTask name cr3Phys entry userStackTop arg0 arg1 brkStart brkLimit k
      = .ok (created, k')) : created ↔ k.tasks.length < maxTasks := by
  unfold schedulerCreateUserTask at ran
  split at ran
  · rename_i full
    cases ran
    simp [Nat.not_lt.mpr full]
  · rename_i room
    obtain ⟨⟨stack, m⟩, -, ran⟩ := bind_eq_ok ran
    cases ran
    simp [Nat.lt_of_not_le room]

theorem userSpawnFromVfsWithArgs_room
    (loaded : Loaded path args file k) (ran : userSpawnFromVfsWithArgs path args file k = .ok (created, k')) :
    created ↔ k.tasks.length < maxTasks := by
  obtain ⟨buffer, m, image, cr3Phys, program, m', stack, m'', size, memory, nonzero, data, length, built,
    pushed⟩ := loaded
  simp only [userSpawnFromVfsWithArgs, if_neg size, memory] at ran
  change (if buffer = 0 then _ else _) = _ at ran
  simp only [if_neg nonzero, data, if_pos length, spawnImage, Kernel.withMachine] at ran
  obtain ⟨_, same, ran⟩ := bind_eq_ok ran
  cases built.symm.trans same
  simp only [pushed] at ran
  obtain ⟨⟨made, k₁⟩, create, ran⟩ := bind_eq_ok ran
  have result := schedulerCreateUserTask_result create
  cases made with
  | true =>
    obtain ⟨m₁, -, ran⟩ := bind_eq_ok ran
    cases ran
    exact result
  | false =>
    obtain ⟨rfl, -⟩ := Still.abandonSpawn ran
    exact result

/-- That whoever asks gets a slot while fewer than `MAX_TASKS` tasks are live means that fewer than
    `MAX_TASKS` were created in the run. -/
theorem task_slot_iff {k₀ k : Kernel} {n : Nat} (run : TaskRun k₀ n k) :
    (∀ name cr3Phys entry userStackTop arg0 arg1 brkStart brkLimit stack m,
      kmalloc taskStackSize k.machine = .ok (stack, m) →
      ((liveTasks k < maxTasks →
        ∃ k', schedulerCreateUserTask name cr3Phys entry userStackTop arg0 arg1 brkStart brkLimit k
          = .ok (true, k')) ↔ (liveTasks k < maxTasks → n < maxTasks))) ∧
    (∀ path args file created k', Loaded path args file k →
      userSpawnFromVfsWithArgs path args file k = .ok (created, k') →
      ((liveTasks k < maxTasks → created = true) ↔ (liveTasks k < maxTasks → n < maxTasks))) := by
  rw [← run.length]
  constructor
  · intro name cr3Phys entry userStackTop arg0 arg1 brkStart brkLimit stack m memory
    exact imp_congr_right fun _ => schedulerCreateUserTask_room memory
  · intro path args file created k' loaded ran
    exact imp_congr_right fun _ => userSpawnFromVfsWithArgs_room loaded ran

/-- Pages 1 to 8 are the top tables of address spaces with nothing in them yet, and the heap has a free
    block for the stacks of the tasks. -/
def freshKernel : Kernel where
  machine :=
    { blankMachine with
      pmm :=
        { used := fun page => page < 9, maxPageIndex := 17, freePageCount := 8, nextHint := 9
          bounded := by decide, hinted := by decide }
      heap :=
        { blocks := [⟨heapBase, 2 ^ 18, true⟩], next := heapBase + 2 ^ 19, mappedEnd := heapBase + 2 ^ 19 } }

/-- The first task finds a slot. -/
theorem task_slot_first :
    ∃ k', schedulerCreateUserTask [0x61] 4096 0x400000 userStackTop 0 0 0x401000 0x402000
      (schedulerInit freshKernel) = .ok (true, k') := by
  have memory : kmalloc taskStackSize (schedulerInit freshKernel).machine = .ok (_, _) := rfl
  apply ((task_slot_iff (.init : TaskRun freshKernel 0 _)).1 [0x61] 4096 0x400000 userStackTop 0 0 0x401000
    0x402000 _ _ memory).mpr
  · intro _
    decide
  · decide

/-- The task in address space `i` is created. -/
def createNth (i : Nat) : TaskCall :=
  .createUser [0x61] (4096 * i) 0x400000 userStackTop 0 0 0x401000 0x402000

def eightExits : List TaskCall :=
  (List.range 8).map (fun i => createNth (i + 1)) ++
    List.replicate 25 (.event (.tick 0x3000)) ++ List.replicate 8 (.event (.exit 0x3000 0))

/-- The run through a list of calls, with the count of the tasks it creates. -/
def runTaskCalls : List TaskCall → Nat → Kernel → Except Panic (Nat × Kernel)
  | [], n, k => .ok (n, k)
  | c :: rest, n, k => do
    let (created, k) ← c.run k
    runTaskCalls rest (n + created.toNat) k

theorem TaskRun.runTaskCalls
    (run : TaskRun k₀ n k) (ran : runTaskCalls calls n k = .ok (n', k')) : TaskRun k₀ n' k' := by
  induction calls generalizing n k with
  | nil =>
    cases ran
    exact run
  | cons c rest ih =>
    obtain ⟨⟨created, k₁⟩, first, ran⟩ := bind_eq_ok ran
    exact ih (run.call c first) ran

set_option maxRecDepth 100000 in
theorem eightExits_result :
    ((runTaskCalls eightExits 0 (schedulerInit freshKernel)).toOption.map fun (n, k) =>
      (n, liveTasks k, (kmalloc taskStackSize k.machine).toOption.isSome)) = some (8, 0, true) := by
  decide +kernel

/-- No task is left, there is memory, and yet no task can be created any more. -/
theorem no_slot_after_exits :
    ∃ k₀ n k, TaskRun k₀ n k ∧ liveTasks k = 0 ∧ (∃ stack m, kmalloc taskStackSize k.machine = .ok (stack, m)) ∧
      ∀ name cr3Phys entry userStackTop arg0 arg1 brkStart brkLimit,
        schedulerCreateUserTask name cr3Phys entry userStackTop arg0 arg1 brkStart brkLimit k
          = .ok (false, k) := by
  have result := eightExits_result
  cases ran : runTaskCalls eightExits 0 (schedulerInit freshKernel) with
  | error e =>
    rw [ran] at result
    cases result
  | ok reached =>
    obtain ⟨n, k⟩ := reached
    simp only [ran, Except.toOption, Option.map_some, Option.some.injEq, Prod.mk.injEq] at result
    obtain ⟨rfl, none_live, memory⟩ := result
    have run := TaskRun.runTaskCalls (.init : TaskRun freshKernel 0 _) ran
    refine ⟨freshKernel, 8, k, run, none_live, ?_, ?_⟩
    · cases taken : kmalloc taskStackSize k.machine with
      | error e =>
        rw [taken] at memory
        cases memory
      | ok block => exact ⟨block.1, block.2, rfl⟩
    · intro name cr3Phys entry userStackTop arg0 arg1 brkStart brkLimit
      have full : maxTasks ≤ k.tasks.length := run.length.symm ▸ Nat.le_refl 8
      unfold schedulerCreateUserTask
      rw [if_pos full]

end TangPingOS
