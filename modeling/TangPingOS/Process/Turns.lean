import TangPingOS.Process.Moves

/-! # The turns of the tasks

Who runs next, and when. An event that lets the current task go on leaves the turn and the
clock alone; a task that leaves hands its turn to the next one that can run, in
round-robin order; a timer tick does so when the quantum is over.
-/

namespace TangPingOS

open Lib

variable {k k' k₁ : Kernel} {frame i next p : Nat}

/-- Equal but for one task of the table, the machine and the queue of stacks. -/
structure Beside (i : Nat) (k k' : Kernel) : Prop where
  length : k'.tasks.length = k.tasks.length
  current : k'.current = k.current
  index : k'.currentTaskIndex = k.currentTaskIndex
  quantum : k'.quantumTicks = k.quantumTicks
  ticks : k'.tickCount = k.tickCount
  ready : k'.ready = k.ready
  others : ∀ p < k.tasks.length, p ≠ i → k'.taskAt (.task p) = k.taskAt (.task p)

namespace Beside

theorem refl (i : Nat) (k : Kernel) : Beside i k k := ⟨rfl, rfl, rfl, rfl, rfl, rfl, fun _ _ _ => rfl⟩

theorem modify (i : Nat) (k : Kernel) (m : Machine) (pending : List Nat) (f : Task → Task) :
    Beside i k { (k.withMachine m).modifyTask (.task i) f with pendingStackFree := pending } where
  length := Kernel.length_modifyTask (k := k.withMachine m)
  current := rfl
  index := rfl
  quantum := rfl
  ticks := rfl
  ready := rfl
  others p low other := by
    have same := Kernel.taskAt_modifyTask (k := k.withMachine m) (c := .task i) (f := f) low
    rw [if_neg (by simpa using Ne.symm other)] at same
    exact same

theorem trans (first : Beside i k k₁) (second : Beside i k₁ k') : Beside i k k' where
  length := second.length.trans first.length
  current := second.current.trans first.current
  index := second.index.trans first.index
  quantum := second.quantum.trans first.quantum
  ticks := second.ticks.trans first.ticks
  ready := second.ready.trans first.ready
  others p low other := (second.others p (first.length.symm ▸ low) other).trans (first.others p low other)

end Beside

theorem releaseTaskResources_beside (run : releaseTaskResources i k = .ok k') : Beside i k k' := by
  unfold releaseTaskResources at run
  simp only at run
  split at run
  · cases run
    exact .refl i k
  · split at run
    · cases run
      exact .modify i k k.machine k.pendingStackFree _
    · obtain ⟨⟨count, m⟩, -, run⟩ := bind_eq_ok run
      have cleared := Beside.modify i k m k.pendingStackFree fun task =>
        { task with
          files := List.replicate taskMaxFds {}
          openFiles := List.replicate taskMaxOpenFiles {}
          cr3 := m.kernelCr3
          resourcesReleased := true }
      simp only [queueStack] at run
      split at run
      · cases run
        exact cleared
      · split at run
        · cases run
        · cases run
          exact cleared.trans (.modify i _ _ _ _)

/-- The search for a task that can run, from an index on, stops at `stop`. -/
def Picks (tasks : List Task) (index : Nat) (current : Current) (stop : Nat) : Prop :=
  ∃ found, searchRunnable tasks tasks.length index = (found, stop) ∧ current = found.elim .boot .task

def resumed (k : Kernel) : Kernel :=
  (switchToTask (nextRunnableTask { k with quantumTicks := 0 }).1 (nextRunnableTask { k with quantumTicks := 0 }).2).2

def SameTask (t t' : Task) : Prop := t'.state = t.state ∧ t'.wakeTick = t.wakeTick

/-- What `resumed` does. -/
structure Resumed (k k' : Kernel) : Prop where
  length : k'.tasks.length = k.tasks.length
  quantum : k'.quantumTicks = 0
  ticks : k'.tickCount = k.tickCount
  ready : k'.ready = k.ready
  heap : k'.machine.heap = k.machine.heap
  pending : k'.pendingStackFree = k.pendingStackFree
  tasks : ∀ p, SameTask (k.taskAt (.task p)) (k'.taskAt (.task p))
  picks : Picks k.tasks k.currentTaskIndex k'.current k'.currentTaskIndex

theorem switchToTask_counters (next : Current) (k : Kernel) :
    (switchToTask next k).2.currentTaskIndex = k.currentTaskIndex ∧
      (switchToTask next k).2.quantumTicks = k.quantumTicks ∧ (switchToTask next k).2.tickCount = k.tickCount ∧
      (switchToTask next k).2.machine.heap = k.machine.heap := by
  have heap (c : Nat) (m : Machine) : (vmmSwitchAddressSpace c m).heap = m.heap := by
    unfold vmmSwitchAddressSpace
    split <;> rfl
  unfold switchToTask
  split
  · exact ⟨rfl, rfl, rfl, rfl⟩
  · cases next <;> exact ⟨rfl, rfl, rfl, heap _ _⟩

theorem resumed_spec (k : Kernel) : Resumed k (resumed k) := by
  obtain ⟨found, stop, searched⟩ : ∃ found stop,
      searchRunnable k.tasks k.tasks.length k.currentTaskIndex = (found, stop) := ⟨_, _, rfl⟩
  have picked : nextRunnableTask { k with quantumTicks := 0 }
      = (found.elim .boot .task, { k with quantumTicks := 0, currentTaskIndex := stop }) := by
    unfold nextRunnableTask
    rw [searched]
    cases found <;> rfl
  obtain ⟨index, quantum, ticks, heap⟩ := switchToTask_counters (found.elim .boot .task)
    { k with quantumTicks := 0, currentTaskIndex := stop }
  obtain ⟨k', switched, current, alike⟩ := switchToTask_spec (found.elim .boot .task)
    { k with quantumTicks := 0, currentTaskIndex := stop }
  unfold resumed
  rw [switched] at index quantum ticks heap
  rw [picked, switched]
  exact ⟨alike.length, quantum, ticks, alike.ready, heap, alike.pendingStackFree,
    fun p => ⟨(alike.taskAt (.task p)).state, (alike.taskAt (.task p)).wakeTick⟩,
    found, searched.trans (congrArg _ index.symm), current⟩

/-- The current task is changed and leaves; then it may be changed once more. -/
def Left (i : Nat) (k k' : Kernel) : Prop :=
  k.current = .task i ∧ ∃ k₁, Beside i k k₁ ∧ Beside i (resumed k₁) k'

theorem leaveCurrent_left (current : k.current = .task i) : Left i k (leaveCurrent i frame change k).2 :=
  ⟨current, _, .modify i k k.machine k.pendingStackFree _, .refl i _⟩

theorem stopCurrent_left (current : k.current = .task i)
    (run : stopCurrent i frame status k = .ok (next, k')) : Left i k k' := by
  obtain ⟨k₂, released, run⟩ := bind_eq_ok run
  cases run
  exact ⟨current, _, .modify i k k.machine k.pendingStackFree _, releaseTaskResources_beside released⟩

theorem Left.length (left : Left i k k') : k'.tasks.length = k.tasks.length := by
  obtain ⟨-, k₁, before, after⟩ := left
  exact after.length.trans ((resumed_spec k₁).length.trans before.length)

/-- A tick up to the end of the quantum: time goes on, and those whose time has come can run again. -/
structure Ticked (k k' : Kernel) : Prop where
  length : k'.tasks.length = k.tasks.length
  current : k'.current = k.current
  index : k'.currentTaskIndex = k.currentTaskIndex
  quantum : k'.quantumTicks = k.quantumTicks
  ticks : k'.tickCount = wrap64 (k.tickCount + 1)
  ready : k'.ready = k.ready
  tasks : ∀ p < k.tasks.length, (k'.taskAt (.task p)).wakeTick = (k.taskAt (.task p)).wakeTick ∧
    (k'.taskAt (.task p)).state =
      if (k.taskAt (.task p)).state = .sleeping ∧ (k.taskAt (.task p)).wakeTick ≤ wrap64 (k.tickCount + 1)
      then .runnable else (k.taskAt (.task p)).state

def advanced (m : Machine) (k : Kernel) : Kernel :=
  { k with tickCount := wrap64 (k.tickCount + 1), machine := m, pendingStackFree := [] }

/-- The part of `scheduler_on_timer_tick` in front of the quantum. -/
def ticking (frame : Nat) (m : Machine) (k : Kernel) : Kernel :=
  (wakeSleepingTasks (advanced m k)).modifyTask k.current fun task => { task with frame := frame }

theorem ticking_spec (frame : Nat) (m : Machine) (k : Kernel) : Ticked k (ticking frame m k) where
  length := Kernel.length_modifyTask.trans (List.length_map _)
  current := Kernel.current_modifyTask
  index := by unfold ticking; cases k.current <;> rfl
  quantum := by unfold ticking; cases k.current <;> rfl
  ticks := by unfold ticking; cases k.current <;> rfl
  ready := Kernel.ready_modifyTask
  tasks p low := by
    have woken : (wakeSleepingTasks (advanced m k)).taskAt (.task p) =
        if (k.taskAt (.task p)).state = .sleeping ∧ (k.taskAt (.task p)).wakeTick ≤ wrap64 (k.tickCount + 1)
        then { k.taskAt (.task p) with state := .runnable } else k.taskAt (.task p) :=
      Kernel.taskAt_map (k := advanced m k) low
    have inside : p < (wakeSleepingTasks (advanced m k)).tasks.length := by
      rw [wakeSleepingTasks, List.length_map]
      exact low
    unfold ticking
    rw [Kernel.taskAt_modifyTask inside, woken]
    split <;> split <;> exact ⟨rfl, rfl⟩

theorem schedulerOnTimerTick_spec (run : schedulerOnTimerTick frame k = .ok (next, k')) :
    (k.ready = false ∨ k.tasks.length = 0) ∧ k' = k ∨
      0 < k.tasks.length ∧ ∃ k₁, Ticked (ensureBootTask frame k) k₁ ∧
        (wrap64 (k₁.quantumTicks + 1) < taskQuantumTicks ∧
            k' = { k₁ with quantumTicks := wrap64 (k₁.quantumTicks + 1) } ∨
          taskQuantumTicks ≤ wrap64 (k₁.quantumTicks + 1) ∧ k' = resumed k₁) := by
  unfold schedulerOnTimerTick at run
  split at run
  · rename_i idle
    cases run
    exact .inl ⟨by simpa using idle, rfl⟩
  · rename_i active
    obtain ⟨k₂, reclaimed, run⟩ := bind_eq_ok run
    obtain ⟨m, -, reclaimed⟩ := bind_eq_ok reclaimed
    cases reclaimed
    simp only [Bool.or_eq_true, not_or, beq_iff_eq] at active
    refine .inr ⟨Nat.pos_of_ne_zero active.2, ticking frame m (ensureBootTask frame k), ticking_spec .., ?_⟩
    change (if wrap64 ((ticking frame m (ensureBootTask frame k)).quantumTicks + 1) < taskQuantumTicks then _
      else _) = _ at run
    split at run
    · rename_i more
      cases run
      exact .inl ⟨more, rfl⟩
    · rename_i last
      exact .inr ⟨Nat.le_of_not_lt last, (congrArg Prod.snd (Except.ok.inj run)).symm⟩

namespace KernelEvent

def Creates : KernelEvent → Prop
  | .init _ | .spawn .. | .createTask .. => True
  | _ => False

def isTick : KernelEvent → Bool
  | .tick _ => true
  | _ => false

end KernelEvent

/-- What an event may do. -/
inductive Effect (frames : Nat → Prop) (e : KernelEvent) (k k' : Kernel) : Prop where
  | still (n : Nat) (still : Still n k k') (quiet : e.Creates ∨ n = 0) (plain : e.isTick = false)
  | leave (i : Nat) (left : Left i k k') (move : Move frames e.Enters k k') (plain : e.isTick = false)
  | tick (frame next : Nat) (same : e = .tick frame) (valid : frames frame)
    (run : schedulerOnTimerTick frame k = .ok (next, k'))

namespace Effect

variable {frames : Nat → Prop} {e : KernelEvent}

variable (plain : e.isTick = false)

include plain

theorem nothing : Effect frames e k k := .still 0 (.refl k) (.inr rfl) plain

theorem left (current : k.current = .task i) (valid : frames frame)
    (leaves : Leaves e.Enters change) : Effect frames e k (leaveCurrent i frame change k).2 :=
  .leave i (leaveCurrent_left current) (.leave i frame change current valid leaves) plain

theorem stopped (current : k.current = .task i) (valid : frames frame)
    (enter : e.Enters .stopped) (run : stopCurrent i frame status k = .ok (next, k')) : Effect frames e k k' :=
  .leave i (stopCurrent_left current run) (.stop i frame status next current valid enter run) plain

end Effect

namespace KernelEvent

variable {frames : Nat → Prop} {e : KernelEvent}

theorem effect (valid : e.Frames frames) (run : e.run k = .ok k') : Effect frames e k k' := by
  cases e with
  | init image => exact .still 1 (.userInitFromModules run) (.inl trivial) rfl
  | spawn path args file =>
    obtain ⟨⟨created, k₁⟩, ran, rfl⟩ := map_eq_ok run
    exact .still _ (.userSpawnFromVfsWithArgs ran) (.inl trivial) rfl
  | createTask name trampoline entry arg =>
    obtain ⟨⟨created, k₁⟩, ran, rfl⟩ := map_eq_ok run
    exact .still _ (.schedulerCreateTask ran) (.inl trivial) rfl
  | brk newBreak =>
    obtain ⟨⟨result, k₁⟩, ran, rfl⟩ := map_eq_ok run
    exact .still 0 (.schedulerSetCurrentBrk ran) (.inr rfl) rfl
  | exit frame status =>
    obtain ⟨⟨next, k₁⟩, ran, rfl⟩ := map_eq_ok run
    unfold schedulerExitCurrent at ran
    split at ran
    · exact .stopped rfl ‹_› valid rfl ran
    · cases ran
      exact .nothing rfl
  | fault frame vector =>
    obtain ⟨⟨next, k₁⟩, ran, rfl⟩ := map_eq_ok run
    unfold schedulerFaultCurrent at ran
    split at ran
    · exact .stopped rfl ‹_› valid rfl ran
    · cases ran
  | yield frame =>
    cases run
    unfold schedulerYieldCurrent
    split
    · exact .left rfl ‹_› valid fun _ => ⟨rfl, .inl rfl⟩
    · exact .nothing rfl
  | sleep frame ticks =>
    cases run
    unfold schedulerSleepCurrent schedulerYieldCurrent
    split <;> split
    · exact .left rfl ‹_› valid fun _ => ⟨rfl, .inl rfl⟩
    · exact .nothing rfl
    · exact .left rfl ‹_› valid fun _ => ⟨rfl, .inr rfl⟩
    · exact .nothing rfl
  | waitForInput frame =>
    cases run
    unfold schedulerWaitCurrentForInput
    split
    · exact .left rfl ‹_› valid fun _ => ⟨rfl, .inr rfl⟩
    · exact .nothing rfl
  | wakeInputWaiters =>
    cases run
    exact .still 0 .schedulerWakeInputWaiters (.inr rfl) rfl
  | tick frame =>
    obtain ⟨⟨next, k₁⟩, ran, rfl⟩ := map_eq_ok run
    exact .tick frame next rfl valid ran

/-- Every event is a sequence of moves. -/
theorem moves (valid : e.Frames frames) (run : e.run k = .ok k') : Moves frames e.Enters k k' := by
  cases e.effect valid run with
  | still n still => exact still.moves
  | leave i left move => exact .single move
  | tick frame next same valid ran => exact .schedulerOnTimerTick valid ran

theorem inside (run : e.run k = .ok k') (inside : k.Inside) : k'.Inside :=
  ((e.moves e.frames_true run).keep_moved (P := fun _ => True) (fun _ _ => trivial) inside trivial).1

end KernelEvent

end TangPingOS
