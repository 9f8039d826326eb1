import TangPingOS.Process.Spawn

/-! # What an event does to the tasks

Every event of the kernel is a sequence of moves. A move says what becomes of the task
table, of the current task and of the queue of stacks; what an invariant of the tasks
needs is that each move keeps it.
-/

namespace TangPingOS

open Lib Relation

def Task.Alike (t t' : Task) : Prop :=
  t' = { t with switches := t'.switches, brkCurrent := t'.brkCurrent }

namespace Task.Alike

variable {t t' t'' : Task}

theorem refl (t : Task) : Alike t t := rfl

theorem switched {switches : Nat} : Alike t { t with switches} := rfl

theorem moved (brkCurrent : Nat) : Alike t { t with brkCurrent} := rfl

variable (alike : Alike t t')

include alike

theorem state : t'.state = t.state := (congrArg Task.state alike).trans rfl

theorem frame : t'.frame = t.frame := (congrArg Task.frame alike).trans rfl

theorem resourcesReleased : t'.resourcesReleased = t.resourcesReleased :=
  (congrArg Task.resourcesReleased alike).trans rfl

theorem wakeTick : t'.wakeTick = t.wakeTick := (congrArg Task.wakeTick alike).trans rfl

theorem files : t'.files = t.files := (congrArg Task.files alike).trans rfl

theorem openFiles : t'.openFiles = t.openFiles := (congrArg Task.openFiles alike).trans rfl

end Task.Alike

variable {created : Bool} {args image name path : Bytes} {k k' : Kernel}
  {buffer cr3Phys entry frame i next status : Nat} {frames : Nat → Prop} {t : Task}

/-- A task as it is created. -/
structure Task.New (t : Task) : Prop where
  state : t.state = .runnable
  frame : t.frame ≠ 0
  resourcesReleased : t.resourcesReleased = false
  files : t.files = ({} : Task).files
  openFiles : t.openFiles = ({} : Task).openFiles

theorem frame_ne_zero : stackTopOf stack - interruptFrameSize ≠ 0 := by
  unfold stackTopOf alignDown taskStackSize interruptFrameSize
  omega

theorem forall₂_modify {α : Type} {R} (refl : ∀ a, R a a) {f}
    (step : ∀ a, R a (f a)) {l : List α} (i : Nat) : List.Forall₂ R l (l.modify i f) := by
  induction l generalizing i with
  | nil => cases i <;> exact .nil
  | cons a l ih =>
    cases i with
    | zero => exact .cons (step a) (List.forall₂_same.mpr fun b _ => refl b)
    | succ i => exact .cons (refl a) (ih i)

namespace Kernel

/-- The same tasks, and the same stacks in the queue. -/
structure Alike (k k' : Kernel) : Prop where
  tasks : List.Forall₂ Task.Alike k.tasks k'.tasks
  bootTask : Task.Alike k.bootTask k'.bootTask
  pendingStackFree : k'.pendingStackFree = k.pendingStackFree
  ready : k'.ready = k.ready

theorem alike_of_eq (tasks : k'.tasks = k.tasks) (bootTask : k'.bootTask = k.bootTask)
    (pending : k'.pendingStackFree = k.pendingStackFree) (ready : k'.ready = k.ready) : k.Alike k' := by
  refine ⟨?_, ?_, pending, ready⟩
  · rw [tasks]
    exact List.forall₂_same.mpr fun t _ => .refl t
  · rw [bootTask]
    exact .refl _

theorem Alike.length (alike : k.Alike k') : k'.tasks.length = k.tasks.length :=
  alike.tasks.length_eq.symm

theorem Alike.taskAt (alike : k.Alike k') (c : Current) : Task.Alike (k.taskAt c) (k'.taskAt c) := by
  cases c with
  | none => exact .refl _
  | boot => exact alike.bootTask
  | task i =>
    unfold Kernel.taskAt
    by_cases inside : i < k.tasks.length
    · have inside' : i < k'.tasks.length := alike.length ▸ inside
      simp only [List.getD, List.getElem?_eq_getElem, inside, inside']
      exact alike.tasks.get inside inside'
    · have outside' := alike.length ▸ inside
      simp only [List.getD, List.getElem?_eq_none (Nat.le_of_not_lt inside),
        List.getElem?_eq_none (Nat.le_of_not_lt outside')]
      exact .refl _

theorem alike_modifyTask (step : ∀ t, Task.Alike t (f t)) (c : Current) : k.Alike (k.modifyTask c f) := by
  cases c with
  | none => exact alike_of_eq rfl rfl rfl rfl
  | boot => exact ⟨List.forall₂_same.mpr fun t _ => .refl t, step _, rfl, rfl⟩
  | task i => exact ⟨forall₂_modify .refl step _, .refl _, rfl, rfl⟩

end Kernel

def Kernel.Inside (k : Kernel) : Prop := ∀ i, k.current = .task i → i < k.tasks.length

namespace Kernel

variable {c : Current} {f : Task → Task} {p : Nat}

@[simp] theorem length_modifyTask : (k.modifyTask c f).tasks.length = k.tasks.length := by
  cases c with
  | none => rfl
  | boot => rfl
  | task i => exact List.length_modify ..

@[simp] theorem current_modifyTask : (k.modifyTask c f).current = k.current := by
  cases c <;> rfl

@[simp] theorem ready_modifyTask : (k.modifyTask c f).ready = k.ready := by
  cases c <;> rfl

@[simp] theorem pendingStackFree_modifyTask : (k.modifyTask c f).pendingStackFree = k.pendingStackFree := by
  cases c <;> rfl

theorem bootTask_modifyTask : (k.modifyTask c f).bootTask = if c = .boot then f k.bootTask else k.bootTask := by
  cases c <;> rfl

theorem taskAt_modifyTask (inside : p < k.tasks.length) :
    (k.modifyTask c f).taskAt (.task p)
      = if c = .task p then f (k.taskAt (.task p)) else k.taskAt (.task p) := by
  cases c with
  | none => rfl
  | boot => rfl
  | task i =>
    simp only [Kernel.modifyTask, Kernel.taskAt, List.getD, List.getElem?_modify,
      List.getElem?_eq_getElem inside, Current.task.injEq]
    split <;> rfl

theorem taskAt_modifyTask_self (inside : k.Inside) (current : k.current ≠ .none) :
    (k.modifyTask k.current f).taskAt k.current = f (k.taskAt k.current) := by
  cases here : k.current with
  | none => exact absurd here current
  | boot => rfl
  | task i => exact (taskAt_modifyTask (inside i here)).trans (if_pos rfl)

theorem taskAt_append (inside : p < k.tasks.length) :
    ({ k with tasks := k.tasks ++ [t] } : Kernel).taskAt (.task p) = k.taskAt (.task p) := by
  simp [Kernel.taskAt, List.getElem?_append_left inside]

theorem taskAt_append_last : ({ k with tasks := k.tasks ++ [t] } : Kernel).taskAt (.task k.tasks.length) = t := by
  simp [Kernel.taskAt]

theorem taskAt_map (inside : p < k.tasks.length) :
    ({ k with tasks := k.tasks.map f } : Kernel).taskAt (.task p) = f (k.taskAt (.task p)) := by
  simp [Kernel.taskAt, inside]

end Kernel

theorem searchRunnable_some (few : left ≤ tasks.length) (found : searchRunnable tasks left index = (some i, stop)) :
    i < tasks.length ∧ (tasks.getD i {}).state = .runnable := by
  induction left generalizing index with
  | zero => cases found
  | succ left ih =>
    unfold searchRunnable at found
    simp only at found
    split at found
    · rename_i runnable
      cases found
      exact ⟨Nat.mod_lt _ (Nat.zero_lt_of_lt few), runnable⟩
    · exact ih (Nat.le_of_succ_le few) found

/-- What `next_runnable_task` may return. -/
def Kernel.Ready (k : Kernel) (c : Current) : Prop :=
  c = .boot ∨ ∃ i < k.tasks.length, c = .task i ∧ (k.taskAt (.task i)).state = .runnable

theorem nextRunnableTask_spec (k : Kernel) :
    ∃ next stop, nextRunnableTask k = (next, { k with currentTaskIndex := stop }) ∧ k.Ready next := by
  unfold nextRunnableTask
  split
  · rename_i index stop found
    obtain ⟨inside, runnable⟩ := searchRunnable_some le_rfl found
    exact ⟨_, _, rfl, .inr ⟨index, inside, rfl, runnable⟩⟩
  · exact ⟨_, _, rfl, .inl rfl⟩

theorem switchToTask_spec (next : Current) (k : Kernel) :
    ∃ k', switchToTask next k = ((k'.taskAt next).frame, k') ∧ k'.current = next ∧ k.Alike k' := by
  unfold switchToTask
  split
  · rename_i same
    exact ⟨k, rfl, same.symm, Kernel.alike_of_eq rfl rfl rfl rfl⟩
  · generalize counted : ({ k with current := next }.modifyTask next fun task =>
        { task with switches := wrap64 (task.switches + 1) }) = k₁
    have alike := counted ▸ Kernel.alike_modifyTask (fun t => Task.Alike.switched) next
    have current : k₁.current = next := by
      rw [← counted]
      cases next <;> rfl
    refine ⟨{ k₁ with
      machine := vmmSwitchAddressSpace (k₁.taskAt next).cr3 k₁.machine
      kernelStack := (k₁.taskAt next).kernelStackTop }, ?_, current, alike.tasks, alike.bootTask,
      alike.pendingStackFree, alike.ready⟩
    cases next <;> rfl

theorem resume_spec (k : Kernel) :
    ∃ next k', switchToTask (nextRunnableTask k).1 (nextRunnableTask k).2 = ((k'.taskAt next).frame, k') ∧
      k'.current = next ∧ k.Ready next ∧ k.Alike k' := by
  obtain ⟨next, stop, picked, ready⟩ := nextRunnableTask_spec k
  obtain ⟨k', switched, current, alike⟩ := switchToTask_spec next { k with currentTaskIndex := stop }
  rw [picked]
  exact ⟨next, k', switched, current, ready, alike.tasks, alike.bootTask, alike.pendingStackFree, alike.ready⟩

theorem map_eq_ok {ε α β : Type} {x : Except ε α} {f} {b : β} (run : x.map f = .ok b) :
    ∃ a, x = .ok a ∧ f a = b := by
  cases x with
  | error e => cases run
  | ok a => exact ⟨a, rfl, Except.ok.inj run⟩

/-- The current task leaves: it is changed, and then the next one goes on. -/
theorem leaveCurrent_spec (i frame : Nat) (change : Task → Task) (k : Kernel) :
    ∃ k', leaveCurrent i frame change k = ((k'.taskAt k'.current).frame, k') ∧
      (k.modifyTask (.task i) fun task => change { task with frame := frame }).Ready k'.current ∧
      (k.modifyTask (.task i) fun task => change { task with frame := frame }).Alike k' := by
  unfold leaveCurrent
  generalize (k.modifyTask (.task i) fun task => change { task with frame := frame }) = k₁
  obtain ⟨next, k', switched, rfl, ready, alike⟩ := resume_spec { k₁ with quantumTicks := 0 }
  exact ⟨k', switched, ready, alike.tasks, alike.bootTask, alike.pendingStackFree, alike.ready⟩

/-- What `release_task_resources` does to the task at an index and to the rest. -/
structure Released (i : Nat) (k k' : Kernel) : Prop where
  current : k'.current = k.current
  ready : k'.ready = k.ready
  bootTask : k'.bootTask = k.bootTask
  length : k'.tasks.length = k.tasks.length
  others : ∀ p < k.tasks.length, p ≠ i → k'.taskAt (.task p) = k.taskAt (.task p)
  state : (k'.taskAt (.task i)).state = (k.taskAt (.task i)).state
  resourcesReleased : (k'.taskAt (.task i)).resourcesReleased
  tables : (k'.taskAt (.task i)).files = (k.taskAt (.task i)).files ∧
      (k'.taskAt (.task i)).openFiles = (k.taskAt (.task i)).openFiles ∨
    (k'.taskAt (.task i)).files = List.replicate taskMaxFds {} ∧
      (k'.taskAt (.task i)).openFiles = List.replicate taskMaxOpenFiles {}
  pending : k'.pendingStackFree = k.pendingStackFree ∨
    (k.taskAt (.task i)).resourcesReleased = false ∧
      k'.pendingStackFree = k.pendingStackFree ++ [(k.taskAt (.task i)).stack]

def clearTables (i : Nat) (m : Machine) (k : Kernel) : Kernel :=
  (k.withMachine m).modifyTask (.task i) fun task =>
    { task with
      files := List.replicate taskMaxFds {}
      openFiles := List.replicate taskMaxOpenFiles {}
      cr3 := m.kernelCr3
      resourcesReleased := true }

theorem clearTables_spec (inside : i < k.tasks.length) (m : Machine) :
    Released i k (clearTables i m k) ∧
      ((clearTables i m k).taskAt (.task i)).stack = (k.taskAt (.task i)).stack ∧
      (clearTables i m k).pendingStackFree = k.pendingStackFree := by
  have here := fun f => Kernel.taskAt_modifyTask (k := k.withMachine m) (c := .task i) (f := f) inside
  unfold clearTables
  refine ⟨⟨rfl, rfl, rfl, by simp [Kernel.withMachine], ?_, ?_, ?_, .inr ⟨?_, ?_⟩, .inl rfl⟩, ?_, rfl⟩
  · intro p low other
    rw [Kernel.taskAt_modifyTask (k := k.withMachine m) low, if_neg (by simpa using Ne.symm other)]
    rfl
  all_goals
    rw [here, if_pos rfl]
    try rfl

theorem Released.queue (cleared : Released i k k₁)
    (inside : i < k.tasks.length) (unreleased : (k.taskAt (.task i)).resourcesReleased = false)
    (stack : (k₁.taskAt (.task i)).stack = (k.taskAt (.task i)).stack)
    (pending : k₁.pendingStackFree = k.pendingStackFree) (run : queueStack i k₁ = .ok k') :
    Released i k k' := by
  unfold queueStack at run
  simp only at run
  split at run
  · cases run
    exact cleared
  · split at run
    · cases run
    · cases run
      have lookup : ∀ {p}, p < k.tasks.length → ∀ {f}, (k₁.modifyTask (.task i) f).taskAt (.task p)
          = if Current.task i = .task p then f (k₁.taskAt (.task p)) else k₁.taskAt (.task p) := by
        intro p low f
        exact Kernel.taskAt_modifyTask (cleared.length ▸ low)
      have here : ∀ f, (k₁.modifyTask (.task i) f).taskAt (.task i) = f (k₁.taskAt (.task i)) :=
        fun f => (lookup inside).trans (if_pos rfl)
      refine ⟨cleared.current, cleared.ready, cleared.bootTask, by simp [cleared.length], ?_, ?_, ?_, ?_,
        .inr ⟨unreleased, by rw [stack, pending]⟩⟩
      · intro p low other
        refine (lookup low).trans ?_
        rw [if_neg (by simpa using Ne.symm other)]
        exact cleared.others p low other
      · exact (congrArg Task.state (here _)).trans cleared.state
      · exact (congrArg Task.resourcesReleased (here _)).trans cleared.resourcesReleased
      · obtain ⟨files, openFiles⟩ | ⟨files, openFiles⟩ := cleared.tables
        · exact .inl ⟨(congrArg Task.files (here _)).trans files,
            (congrArg Task.openFiles (here _)).trans openFiles⟩
        · exact .inr ⟨(congrArg Task.files (here _)).trans files,
            (congrArg Task.openFiles (here _)).trans openFiles⟩

theorem releaseTaskResources_spec (inside : i < k.tasks.length)
    (run : releaseTaskResources i k = .ok k') : Released i k k' := by
  unfold releaseTaskResources at run
  simp only at run
  split at run
  · rename_i released
    cases run
    exact ⟨rfl, rfl, rfl, rfl, fun _ _ _ => rfl, rfl, released, .inl ⟨rfl, rfl⟩, .inl rfl⟩
  · rename_i unreleased
    split at run
    · cases run
      have here := fun f => Kernel.taskAt_modifyTask (c := .task i) (f := f) inside
      refine ⟨rfl, rfl, rfl, by simp, ?_, ?_, ?_, .inl ⟨?_, ?_⟩, .inl rfl⟩
      · intro p low other
        rw [Kernel.taskAt_modifyTask low, if_neg (by simpa using Ne.symm other)]
      all_goals rw [here, if_pos rfl]
    · obtain ⟨⟨count, m⟩, -, run⟩ := bind_eq_ok run
      obtain ⟨cleared, stack, pending⟩ := clearTables_spec inside m
      exact cleared.queue inside (by simpa using unreleased) stack pending run

theorem current_ensureBootTask : (ensureBootTask frame k).current ≠ .none := by
  unfold ensureBootTask
  split
  · assumption
  · nofun

theorem current_reclaimPendingStacks (run : reclaimPendingStacks k = .ok k') : k'.current = k.current := by
  obtain ⟨m, -, run⟩ := bind_eq_ok run
  cases run
  rfl

/-! ## Moves -/

/-- What a task that leaves may change of itself: its state, and what belongs to it. -/
def Leaves (enters : TaskState → Prop) (change : Task → Task) : Prop :=
  ∀ t, change t = { t with
      state := (change t).state, wakeTick := (change t).wakeTick, exitStatus := (change t).exitStatus } ∧
    ((change t).state = t.state ∨ enters (change t).state)

/-- A move, with the frames that may be saved and the states that a task may enter. -/
inductive Move (frames : Nat → Prop) (enters : TaskState → Prop) : Kernel → Kernel → Prop where
  /-- Counters, and the memory of the machine. -/
  | quiet {k k' : Kernel} (alike : k.Alike k') (current : k'.current = k.current) :
    Move frames enters k k'
  | create {k : Kernel} {t : Task} (new : t.New) (room : k.tasks.length < maxTasks) :
    Move frames enters k { k with tasks := k.tasks ++ [t] }
  | boot {k : Kernel} {frame : Nat} (valid : frames frame) (some_ : 0 < k.tasks.length) :
    Move frames enters k (ensureBootTask frame k)
  | reclaim {k : Kernel} : Move frames enters k { k with pendingStackFree := [] }
  | wake {k : Kernel} (due : Task → Prop) [DecidablePred due]
    (blocked : ∀ t, due t → t.state = .sleeping ∨ t.state = .waitingInput) :
    Move frames enters k
      { k with tasks := k.tasks.map fun t => if due t then { t with state := .runnable } else t }
  | save {k : Kernel} {frame : Nat} (valid : frames frame) :
    Move frames enters k (k.modifyTask k.current fun t => { t with frame := frame })
  | resume {k : Kernel} (started : k.current ≠ .none) :
    Move frames enters k (switchToTask (nextRunnableTask k).1 (nextRunnableTask k).2).2
  | leave {k : Kernel} (i frame : Nat) (change : Task → Task) (current : k.current = .task i)
    (valid : frames frame) (leaves : Leaves enters change) :
    Move frames enters k (leaveCurrent i frame change k).2
  | stop {k k' : Kernel} (i frame status next : Nat) (current : k.current = .task i)
    (valid : frames frame) (enter : enters .stopped)
    (stopped : stopCurrent i frame status k = .ok (next, k')) : Move frames enters k k'

def Moves (frames : Nat → Prop) (enters : TaskState → Prop) : Kernel → Kernel → Prop :=
  ReflTransGen (Move frames enters)

namespace Moves

variable {enters : TaskState → Prop}

theorem machine : Moves frames enters k (k.withMachine m) :=
  .single (.quiet (Kernel.alike_of_eq rfl rfl rfl rfl) rfl)

theorem quantum : Moves frames enters k { k with quantumTicks := ticks } :=
  .single (.quiet (Kernel.alike_of_eq rfl rfl rfl rfl) rfl)

theorem keep {P : Kernel → Prop} (step : ∀ {k k'}, Move frames enters k k' → P k → P k')
    (moves : Moves frames enters k k') (start : P k) : P k' := by
  induction moves with
  | refl => exact start
  | tail _ last ih => exact step last ih

end Moves

/-- Tasks may have been created or let in from a wait for input; nothing else that concerns the turns of the
    tasks has happened. -/
structure Still (n : Nat) (k k' : Kernel) : Prop where
  moves : ∀ {frames enters}, Moves frames enters k k'
  length : k'.tasks.length = k.tasks.length + n
  room : k.tasks.length ≤ maxTasks → k'.tasks.length ≤ maxTasks
  current : k'.current = k.current
  index : k'.currentTaskIndex = k.currentTaskIndex
  quantum : k'.quantumTicks = k.quantumTicks
  ticks : k'.tickCount = k.tickCount
  ready : k'.ready = k.ready
  sleeps : ∀ p < k.tasks.length, (k.taskAt (.task p)).state = .sleeping →
    (k'.taskAt (.task p)).state = .sleeping ∧ (k'.taskAt (.task p)).wakeTick = (k.taskAt (.task p)).wakeTick

namespace Still

theorem machine : Still 0 k (k.withMachine m) :=
  ⟨.machine, rfl, id, rfl, rfl, rfl, rfl, rfl, fun _ _ sleeping => ⟨sleeping, rfl⟩⟩

theorem refl (k : Kernel) : Still 0 k k := machine

theorem trans {a b : Nat} {k₁ : Kernel} (first : Still a k k₁) (second : Still b k₁ k') : Still (a + b) k k' where
  moves := first.moves.trans second.moves
  length := by rw [second.length, first.length, Nat.add_assoc]
  room := second.room ∘ first.room
  current := second.current.trans first.current
  index := second.index.trans first.index
  quantum := second.quantum.trans first.quantum
  ticks := second.ticks.trans first.ticks
  ready := second.ready.trans first.ready
  sleeps p low sleeping := by
    obtain ⟨asleep, due⟩ := first.sleeps p low sleeping
    obtain ⟨asleep', due'⟩ := second.sleeps p (by rw [first.length]; exact Nat.lt_add_right a low) asleep
    exact ⟨asleep', due'.trans due⟩

theorem after (first : Still 0 k k₁) (second : Still n k₁ k') : Still n k k' :=
  Nat.zero_add n ▸ first.trans second

/-- A task is appended; then the machine and the next pid are stored. -/
theorem append (new : t.New) (room : k.tasks.length < maxTasks) :
    Still 1 k { k with machine := m, tasks := k.tasks ++ [t], nextPid := pid } where
  moves {frames enters} := by
    have created : Move frames enters k { k with tasks := k.tasks ++ [t] } := .create new room
    exact (ReflTransGen.single created).tail (.quiet (Kernel.alike_of_eq rfl rfl rfl rfl) rfl)
  length := List.length_append
  room _ := List.length_append.trans_le room
  current := rfl
  index := rfl
  quantum := rfl
  ticks := rfl
  ready := rfl
  sleeps p low sleeping := by
    have same : Kernel.taskAt { k with machine := m, tasks := k.tasks ++ [t], nextPid := pid } (.task p)
        = k.taskAt (.task p) := Kernel.taskAt_append low
    rw [same]
    exact ⟨sleeping, rfl⟩

theorem schedulerCreateTask (run : TangPingOS.schedulerCreateTask name trampoline entry arg k = .ok (created, k')) :
    Still created.toNat k k' := by
  unfold TangPingOS.schedulerCreateTask at run
  split at run
  · cases run
    exact .refl k
  · rename_i room
    obtain ⟨⟨stack, m⟩, -, run⟩ := bind_eq_ok run
    cases run
    refine append ?_ (Nat.lt_of_not_le room)
    exact ⟨rfl, frame_ne_zero, rfl, rfl, rfl⟩

theorem schedulerCreateUserTask {userStackTop arg0 arg1 brkStart brkLimit}
    (run : TangPingOS.schedulerCreateUserTask name cr3Phys entry userStackTop arg0 arg1 brkStart
      brkLimit k = .ok (created, k')) : Still created.toNat k k' := by
  unfold TangPingOS.schedulerCreateUserTask at run
  split at run
  · cases run
    exact .refl k
  · rename_i room
    obtain ⟨⟨stack, m⟩, -, run⟩ := bind_eq_ok run
    cases run
    refine append ?_ (Nat.lt_of_not_le room)
    exact ⟨rfl, frame_ne_zero, rfl, rfl, rfl⟩

theorem abandonSpawn (run : TangPingOS.abandonSpawn buffer cr3Phys k = .ok (created, k')) :
    created = false ∧ Still 0 k k' := by
  obtain ⟨m, -, run⟩ := bind_eq_ok run
  obtain ⟨⟨count, m'⟩, -, run⟩ := bind_eq_ok run
  cases run
  exact ⟨rfl, machine⟩

theorem spawnImage (run : TangPingOS.spawnImage path args image buffer k = .ok (created, k')) :
    Still created.toNat k k' := by
  obtain ⟨⟨cr3Phys, loaded, m⟩, -, run⟩ := bind_eq_ok run
  simp only at run
  split at run
  · obtain ⟨rfl, abandoned⟩ := abandonSpawn run
    exact machine.after abandoned
  · obtain ⟨⟨made, k₁⟩, entered, run⟩ := bind_eq_ok run
    have first := machine.after (schedulerCreateUserTask entered)
    cases made with
    | true =>
      obtain ⟨m', -, run⟩ := bind_eq_ok run
      cases run
      exact first.trans machine
    | false =>
      obtain ⟨rfl, abandoned⟩ := abandonSpawn run
      exact first.trans abandoned

theorem userSpawnFromVfsWithArgs (run : TangPingOS.userSpawnFromVfsWithArgs path args file k = .ok (created, k')) :
    Still created.toNat k k' := by
  unfold TangPingOS.userSpawnFromVfsWithArgs at run
  split at run
  · cases run
    exact .refl k
  · obtain ⟨⟨buffer, m⟩, -, run⟩ := bind_eq_ok run
    simp only at run
    split at run
    · cases run
      exact machine
    · have freed : (kfree buffer m >>= fun m => pure (false, k.withMachine m))
          = Except.ok (created, k') → Still created.toNat k k' := by
        intro run
        obtain ⟨m', -, run⟩ := bind_eq_ok run
        cases run
        exact machine
      split at run
      · split at run
        · exact machine.after (spawnImage run)
        · exact freed run
      · exact freed run

theorem userInitFromModules (run : TangPingOS.userInitFromModules image k = .ok k') : Still 1 k k' := by
  obtain ⟨⟨cr3Phys, loaded, m⟩, -, run⟩ := bind_eq_ok run
  obtain ⟨⟨made, k₁⟩, entered, run⟩ := bind_eq_ok run
  cases made with
  | true =>
    cases run
    exact machine.after (schedulerCreateUserTask entered)
  | false => cases run

theorem schedulerSetCurrentBrk
    (run : TangPingOS.schedulerSetCurrentBrk newBreak k = .ok (result, k')) : Still 0 k k' := by
  unfold TangPingOS.schedulerSetCurrentBrk at run
  split at run
  · rename_i index current
    simp only at run
    split at run
    · cases run
      exact .refl k
    · split at run
      · cases run
        exact .refl k
      · have stored : ∀ m, Still 0 k ((k.withMachine m).modifyTask (.task index) fun task =>
            { task with brkCurrent := newBreak }) := by
          intro m
          have alike := Kernel.alike_modifyTask (k := k.withMachine m)
            (fun t => Task.Alike.moved newBreak) (.task index)
          refine machine.after ⟨.single (.quiet alike rfl), alike.length, alike.length.trans_le,
            rfl, rfl, rfl, rfl, rfl, ?_⟩
          intro p _ sleeping
          have same := alike.taskAt (.task p)
          exact ⟨same.state.trans sleeping, same.wakeTick⟩
        split at run
        · obtain ⟨m, -, run⟩ := bind_eq_ok run
          cases run
          exact stored m
        · cases run
          exact stored k.machine
  · cases run
    exact .refl k

theorem schedulerWakeInputWaiters : Still 0 k (TangPingOS.schedulerWakeInputWaiters k) where
  moves := by
    refine .single (.wake (fun t => t.state = .waitingInput) ?_)
    intro t due
    exact .inr due
  length := List.length_map _
  room := (List.length_map _).trans_le
  current := rfl
  index := rfl
  quantum := rfl
  ticks := rfl
  ready := rfl
  sleeps p low sleeping := by
    rw [TangPingOS.schedulerWakeInputWaiters, Kernel.taskAt_map low, sleeping]
    exact ⟨sleeping, rfl⟩

end Still

namespace Moves

variable {enters : TaskState → Prop}

theorem reclaimPendingStacks (run : TangPingOS.reclaimPendingStacks k = .ok k') : Moves frames enters k k' := by
  obtain ⟨m, -, run⟩ := bind_eq_ok run
  cases run
  exact machine.tail .reclaim

theorem wakeSleepingTasks : Moves frames enters k (TangPingOS.wakeSleepingTasks k) := by
  refine .single (.wake (fun t => t.state = .sleeping ∧ t.wakeTick ≤ k.tickCount) ?_)
  intro t due
  exact .inl due.1

theorem schedulerOnTimerTick (valid : frames frame)
    (run : TangPingOS.schedulerOnTimerTick frame k = .ok (next, k')) : Moves frames enters k k' := by
  unfold TangPingOS.schedulerOnTimerTick at run
  split at run
  · cases run
    exact .refl
  · rename_i active
    have some_ : 0 < k.tasks.length := by
      simp only [Bool.or_eq_true, not_or, beq_iff_eq] at active
      exact Nat.pos_of_ne_zero active.2
    obtain ⟨k₁, reclaimed, run⟩ := bind_eq_ok run
    have booted : Moves frames enters k (ensureBootTask frame k) := .single (.boot valid some_)
    have counted : Moves frames enters (ensureBootTask frame k) { ensureBootTask frame k with
        tickCount := wrap64 ((ensureBootTask frame k).tickCount + 1) } :=
      .single (.quiet (Kernel.alike_of_eq rfl rfl rfl rfl) rfl)
    have woken := ((booted.trans counted).trans (reclaimPendingStacks reclaimed)).trans
      wakeSleepingTasks
    have saved := woken.tail (.save valid)
    have started : ((TangPingOS.wakeSleepingTasks k₁).modifyTask
        (TangPingOS.wakeSleepingTasks k₁).current fun t => { t with frame := frame }).current ≠ .none := by
      rw [Kernel.current_modifyTask]
      exact current_reclaimPendingStacks reclaimed ▸ current_ensureBootTask
    simp only at run
    generalize (TangPingOS.wakeSleepingTasks k₁).modifyTask (TangPingOS.wakeSleepingTasks k₁).current
      (fun t => { t with frame := frame }) = k₂ at run saved started
    split at run
    · cases run
      exact saved.trans quantum
    · obtain rfl : _ = k' := congrArg Prod.snd (Except.ok.inj run)
      exact (saved.trans quantum).tail (.resume started)

end Moves

theorem Kernel.Ready.inside (ready : k.Ready (.task i)) : i < k.tasks.length := by
  obtain impossible | ⟨j, low, same, -⟩ := ready
  · cases impossible
  · cases same
    exact low

def stopped (frame status : Nat) (task : Task) : Task :=
  { task with frame := frame, state := .stopped, exitStatus := status }

theorem stopCurrent_spec (inside : i < k.tasks.length) (run : stopCurrent i frame status k = .ok (next, k')) :
    ∃ k₁, leaveCurrent i frame (fun task => { task with state := .stopped, exitStatus := status }) k
        = (next, k₁) ∧ next = (k₁.taskAt k₁.current).frame ∧
      (k.modifyTask (.task i) (stopped frame status)).Ready k₁.current ∧
      (k.modifyTask (.task i) (stopped frame status)).Alike k₁ ∧ Released i k₁ k' := by
  unfold stopCurrent at run
  obtain ⟨k₁, left, ready, alike⟩ := leaveCurrent_spec i frame
    (fun task => { task with state := .stopped, exitStatus := status }) k
  rw [left] at run
  obtain ⟨k₂, released, run⟩ := bind_eq_ok run
  cases run
  refine ⟨k₁, left, rfl, ready, alike, releaseTaskResources_spec ?_ released⟩
  rw [alike.length, Kernel.length_modifyTask]
  exact inside

/-! ## What a move leaves of the tasks -/

/-- What a move may make of a task; `own` says that it is the current one. -/
structure Task.Moved (frames : Nat → Prop) (enters : TaskState → Prop) (own : Prop) (t t' : Task) : Prop where
  state : t'.state = t.state ∨ own ∧ enters t'.state ∨
    (t.state = .sleeping ∨ t.state = .waitingInput) ∧ t'.state = .runnable
  frame : t'.frame = t.frame ∨ own ∧ frames t'.frame ∨ t'.state = .stopped
  released : t'.resourcesReleased = t.resourcesReleased ∨
    own ∧ t'.state = .stopped ∧ t'.resourcesReleased
  tables : t'.files = t.files ∧ t'.openFiles = t.openFiles ∨ enters .stopped ∧ own ∧
    t'.files = List.replicate taskMaxFds {} ∧ t'.openFiles = List.replicate taskMaxOpenFiles {}

/-- What a move may do to the kernel. -/
structure Kernel.Moved (frames : Nat → Prop) (enters : TaskState → Prop) (k k' : Kernel) : Prop where
  length : k.tasks.length ≤ k'.tasks.length
  room : k.tasks.length ≤ maxTasks → k'.tasks.length ≤ maxTasks
  tasks : ∀ p < k.tasks.length,
    Task.Moved frames enters (k.current = .task p) (k.taskAt (.task p)) (k'.taskAt (.task p))
  new : ∀ p, k.tasks.length ≤ p → p < k'.tasks.length → (k'.taskAt (.task p)).New
  current : k'.Ready k'.current ∨ k'.current = k.current ∧ ∀ p < k.tasks.length,
    (k'.taskAt (.task p)).state = (k.taskAt (.task p)).state ∨ (k'.taskAt (.task p)).state = .runnable
  begins : k'.current ≠ .none → k.current ≠ .none ∨ 0 < k.tasks.length ∧ frames k'.bootTask.frame
  boot : k'.bootTask.frame = k.bootTask.frame ∨ frames k'.bootTask.frame
  ready : k'.ready = k.ready
  pending : k'.pendingStackFree.length ≤ k.pendingStackFree.length ∨
    ∃ p < k.tasks.length, (k.taskAt (.task p)).resourcesReleased = false ∧
      (k'.taskAt (.task p)).resourcesReleased ∧
      k'.pendingStackFree.length = k.pendingStackFree.length + 1

section Moved

variable {enters : TaskState → Prop} {own : Prop} {t' t'' : Task} {k₁ : Kernel}

theorem Task.Moved.refl (t : Task) : t.Moved frames enters own t :=
  ⟨.inl rfl, .inl rfl, .inl rfl, .inl ⟨rfl, rfl⟩⟩

theorem Task.Moved.alike (moved : t.Moved frames enters own t') (alike : t'.Alike t'') :
    t.Moved frames enters own t'' where
  state := by rw [alike.state]; exact moved.state
  frame := by rw [alike.frame, alike.state]; exact moved.frame
  released := by rw [alike.resourcesReleased, alike.state]; exact moved.released
  tables := by rw [alike.files, alike.openFiles]; exact moved.tables

theorem Kernel.Ready.alike (ready : k.Ready c) (alike : k.Alike k') : k'.Ready c := by
  obtain rfl | ⟨i, low, rfl, runnable⟩ := ready
  · exact .inl rfl
  · exact .inr ⟨i, alike.length ▸ low, rfl, (alike.taskAt (.task i)).state.trans runnable⟩

theorem Kernel.Ready.ne_none (ready : k.Ready c) : c ≠ .none := by
  rintro rfl
  obtain impossible | ⟨i, -, impossible, -⟩ := ready <;> cases impossible

/-- The same tasks in the table: nothing but what is said changes. -/
theorem Kernel.Moved.same (length : k'.tasks.length = k.tasks.length) (tasks : ∀ p < k.tasks.length,
      Task.Moved frames enters (k.current = .task p) (k.taskAt (.task p)) (k'.taskAt (.task p)))
    (current : k'.Ready k'.current ∧ k.current ≠ .none ∨ k'.current = k.current ∧ ∀ p < k.tasks.length,
      (k'.taskAt (.task p)).state = (k.taskAt (.task p)).state ∨ (k'.taskAt (.task p)).state = .runnable)
    (boot : k'.bootTask.frame = k.bootTask.frame ∨ frames k'.bootTask.frame) (ready : k'.ready = k.ready)
    (pending : k'.pendingStackFree.length ≤ k.pendingStackFree.length) : k.Moved frames enters k' where
  length := length.ge
  room := length.trans_le
  tasks := tasks
  new _ high low := absurd (length ▸ low) (Nat.not_lt.mpr high)
  current := current.imp_left And.left
  begins started := .inl (current.elim And.right fun same => same.1 ▸ started)
  boot := boot
  ready := ready
  pending := .inl pending

/-- The current task is changed and leaves. -/
theorem Kernel.Moved.leave (current : k.current = .task i) (valid : frames frame) (leaves : Leaves enters change)
    (ready : (k.modifyTask (.task i) fun task => change { task with frame := frame }).Ready k₁.current)
    (alike : (k.modifyTask (.task i) fun task => change { task with frame := frame }).Alike k₁) :
    k.Moved frames enters k₁ := by
  refine .same (alike.length.trans length_modifyTask) ?_ (.inl ⟨ready.alike alike, by rw [current]; nofun⟩)
    (.inl alike.bootTask.frame) alike.ready (congrArg List.length alike.pendingStackFree).le
  intro p low
  refine Task.Moved.alike ?_ (alike.taskAt (.task p))
  rw [taskAt_modifyTask low]
  split
  · rename_i here
    obtain ⟨made, state⟩ := leaves { k.taskAt (.task p) with frame := frame }
    have own := current.trans here
    rw [made]
    exact ⟨state.imp_right fun enter => .inl ⟨own, enter⟩, .inr (.inl ⟨own, valid⟩), .inl rfl, .inl ⟨rfl, rfl⟩⟩
  · exact .refl _

/-- The current task stops: another goes on before its resources are released. -/
theorem Kernel.Moved.stop (current : k.current = .task i) (valid : frames frame) (enter : enters .stopped)
    (inside : i < k.tasks.length) (run : stopCurrent i frame status k = .ok (next, k')) :
    k.Moved frames enters k' := by
  obtain ⟨k₁, -, -, ready, alike, released⟩ := stopCurrent_spec inside run
  have leaves : Leaves enters fun task => { task with state := .stopped, exitStatus := status } :=
    fun _ => ⟨rfl, .inr enter⟩
  have left : k.Moved frames enters k₁ := .leave current valid leaves ready alike
  have length := released.length.trans (alike.length.trans length_modifyTask)
  have task := alike.taskAt (.task i)
  rw [taskAt_modifyTask inside, if_pos rfl] at task
  have state := released.state.trans task.state
  refine ⟨length.ge, length.trans_le, ?_, ?_, .inl ?_, fun _ => .inl (by rw [current]; nofun),
    released.bootTask ▸ left.boot, released.ready.trans left.ready, ?_⟩
  · intro p low
    by_cases here : p = i
    · subst here
      refine ⟨.inr (.inl ⟨current, state ▸ enter⟩), .inr (.inr state),
        .inr ⟨current, state, released.resourcesReleased⟩, ?_⟩
      obtain ⟨files, openFiles⟩ | cleared := released.tables
      · exact .inl ⟨files.trans task.files, openFiles.trans task.openFiles⟩
      · exact .inr ⟨enter, current, cleared⟩
    · rw [released.others p (low.trans_le left.length) here]
      exact left.tasks p low
  · intro p high low
    omega
  · rw [released.current]
    obtain boot | ⟨j, low, here, runnable⟩ := ready.alike alike
    · exact .inl boot
    · have other : j ≠ i := by
        rintro rfl
        rw [← released.state, state] at runnable
        cases runnable
      exact .inr ⟨j, released.length.symm ▸ low, here, by rw [released.others j low other]; exact runnable⟩
  · obtain same | ⟨unreleased, queued⟩ := released.pending
    · exact .inl (by rw [same, alike.pendingStackFree]; rfl)
    · refine .inr ⟨i, inside, task.resourcesReleased.symm.trans unreleased, released.resourcesReleased, ?_⟩
      rw [queued, List.length_append, alike.pendingStackFree]
      rfl

/-- What every move does. -/
theorem Move.moved (move : Move frames enters k k') (inside : k.Inside) : k.Moved frames enters k' := by
  have alike_ : ∀ {k'}, k.Alike k' → ∀ p < k.tasks.length,
      Task.Moved frames enters (k.current = .task p) (k.taskAt (.task p)) (k'.taskAt (.task p)) :=
    fun alike p _ => (Task.Moved.refl _).alike (alike.taskAt (.task p))
  cases move with
  | quiet alike current =>
    exact .same alike.length (alike_ alike) (.inr ⟨current, fun p _ => .inl (alike.taskAt (.task p)).state⟩)
      (.inl alike.bootTask.frame) alike.ready (congrArg List.length alike.pendingStackFree).le
  | create new room =>
    refine ⟨by simp, fun _ => List.length_append.trans_le room, fun p low => ?_, fun p high low => ?_,
      .inr ⟨rfl, fun p low => .inl ?_⟩, .inl, .inl rfl, rfl, .inl le_rfl⟩
    · rw [Kernel.taskAt_append low]
      exact .refl _
    · rw [List.length_append, List.length_singleton] at low
      obtain rfl : p = k.tasks.length := by omega
      rw [Kernel.taskAt_append_last]
      exact new
    · rw [Kernel.taskAt_append low]
  | boot valid some_ =>
    unfold ensureBootTask
    split
    · exact .same rfl (fun p _ => .refl _) (.inr ⟨rfl, fun p _ => .inl rfl⟩) (.inl rfl) rfl le_rfl
    · exact ⟨le_rfl, id, fun p _ => .refl _, fun p high low => absurd low (Nat.not_lt.mpr high),
        .inl (.inl rfl), fun _ => .inr ⟨some_, valid⟩, .inr valid, rfl, .inl le_rfl⟩
  | reclaim =>
    exact .same rfl (fun p _ => .refl _) (.inr ⟨rfl, fun p _ => .inl rfl⟩) (.inl rfl) rfl (Nat.zero_le _)
  | wake due blocked =>
    refine .same (List.length_map _) (fun p low => ?_) (.inr ⟨rfl, fun p low => ?_⟩) (.inl rfl) rfl le_rfl
    · rw [Kernel.taskAt_map low]
      split
      · rename_i isDue
        exact ⟨.inr (.inr ⟨blocked _ isDue, rfl⟩), .inl rfl, .inl rfl, .inl ⟨rfl, rfl⟩⟩
      · exact .refl _
    · rw [Kernel.taskAt_map low]
      split
      · exact .inr rfl
      · exact .inl rfl
  | save valid =>
    refine .same Kernel.length_modifyTask (fun p low => ?_)
      (.inr ⟨Kernel.current_modifyTask, fun p low => .inl ?_⟩) ?_ Kernel.ready_modifyTask
      (by rw [Kernel.pendingStackFree_modifyTask])
    · rw [Kernel.taskAt_modifyTask low]
      split
      · rename_i own
        exact ⟨.inl rfl, .inr (.inl ⟨own, valid⟩), .inl rfl, .inl ⟨rfl, rfl⟩⟩
      · exact .refl _
    · rw [Kernel.taskAt_modifyTask low]
      split <;> rfl
    · rw [Kernel.bootTask_modifyTask]
      split
      · exact .inr valid
      · exact .inl rfl
  | resume started =>
    obtain ⟨next, k₁, resume, rfl, ready, alike⟩ := resume_spec k
    rw [resume]
    exact .same alike.length (alike_ alike) (.inl ⟨ready.alike alike, started⟩) (.inl alike.bootTask.frame)
      alike.ready (congrArg List.length alike.pendingStackFree).le
  | leave i frame change current valid leaves =>
    obtain ⟨k₁, left, ready, alike⟩ := leaveCurrent_spec i frame change k
    rw [left]
    exact .leave current valid leaves ready alike
  | stop i frame status next current valid enter run => exact .stop current valid enter (inside i current) run

theorem Kernel.Moved.inside (moved : k.Moved frames enters k') (inside : k.Inside) : k'.Inside := by
  intro i here
  obtain ready | ⟨same, -⟩ := moved.current
  · exact (here ▸ ready).inside
  · exact (inside i (same ▸ here)).trans_le moved.length

/-- What every move keeps, where it says what becomes of the tasks. -/
theorem Moves.keep_moved {P : Kernel → Prop} (step : ∀ {k k'}, k.Moved frames enters k' → P k → P k')
    (moves : Moves frames enters k k') (inside : k.Inside) (start : P k) : k'.Inside ∧ P k' := by
  refine moves.keep (P := fun k => k.Inside ∧ P k) (fun move before => ?_) ⟨inside, start⟩
  have moved := move.moved before.1
  exact ⟨moved.inside before.1, step moved before.2⟩

end Moved

namespace KernelEvent

/-- The frame that comes with the event, if one does, satisfies `frames`. -/
def Frames (frames : Nat → Prop) : KernelEvent → Prop
  | .exit frame _ | .fault frame _ | .yield frame | .sleep frame _ | .waitForInput frame
  | .tick frame => frames frame
  | _ => True

theorem frames_true (e : KernelEvent) : e.Frames fun _ => True := by
  cases e <;> trivial

def Enters : KernelEvent → TaskState → Prop
  | .exit .., s | .fault .., s => s = .stopped
  | .sleep .., s => s = .sleeping
  | .waitForInput _, s => s = .waitingInput
  | _, _ => False

end KernelEvent

end TangPingOS
