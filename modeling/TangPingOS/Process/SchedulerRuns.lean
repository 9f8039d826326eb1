import TangPingOS.Memory.PageAllocator
import TangPingOS.Process.Panics
import TangPingOS.Process.Scheduling

/-! # Runs of the scheduler

Events in any order, as long as the calls among them come from the current task. Whatever
returns returns to a task that can run, at the frame saved for it; stopped tasks stay
stopped; and a task gives its stack up once, when another task is already running.
-/

namespace TangPingOS

open Lib

namespace KernelEvent

/-- An interrupt comes with a frame, and so does a call, which comes from a task of the table. -/
def Consistent (k : Kernel) : KernelEvent → Prop
  | .exit frame _ | .fault frame _ | .yield frame | .sleep frame _ | .waitForInput frame =>
    frame ≠ 0 ∧ ∃ i, k.current = .task i
  | .tick frame => frame ≠ 0
  | _ => True

def returned (k : Kernel) : KernelEvent → Option (Except Panic (Nat × Kernel))
  | .exit frame status => some (schedulerExitCurrent frame status k)
  | .fault frame vector => some (schedulerFaultCurrent frame vector k)
  | .yield frame => some (.ok (schedulerYieldCurrent frame k))
  | .sleep frame ticks => some (.ok (schedulerSleepCurrent frame ticks k))
  | .waitForInput frame => some (.ok (schedulerWaitCurrentForInput frame k))
  | .tick frame => some (schedulerOnTimerTick frame k)
  | _ => none

variable {e : KernelEvent} {k k' : Kernel}

theorem Consistent.frames (consistent : e.Consistent k) : e.Frames (· ≠ 0) := by
  cases e with
  | exit | fault | yield | sleep | waitForInput => exact consistent.1
  | tick => exact consistent
  | init | spawn | createTask | brk | wakeInputWaiters => trivial

theorem run_of_returned (returned : e.returned k = some (.ok (frame, k'))) : e.run k = .ok k' := by
  cases e with
  | exit | fault | tick =>
    have ran := Option.some.inj returned
    simp only [KernelEvent.run, ran]
    rfl
  | yield | sleep | waitForInput =>
    have ran := Except.ok.inj (Option.some.inj returned)
    simp only [KernelEvent.run, ran]
  | init | spawn | createTask | brk | wakeInputWaiters => cases returned

/-- The task whose resources an exit or a fault releases, and the state it releases them in. -/
def releasing (k : Kernel) (e : KernelEvent) : Option (Nat × Kernel) :=
  match e, k.current with
  | .exit frame status, .task i =>
    some (i, (leaveCurrent i frame (fun task => { task with state := .stopped, exitStatus := status }) k).2)
  | .fault frame vector, .task i =>
    some (i, (leaveCurrent i frame
      (fun task => { task with state := .stopped, exitStatus := wrap64 (128 + vector) }) k).2)
  | _, _ => none

def queued (k k' : Kernel) (e : KernelEvent) : List Nat :=
  match e.releasing k with
  | some (i, k₁) => if k'.pendingStackFree = k₁.pendingStackFree then [] else [i]
  | none => []

end KernelEvent

namespace SchedulerInv

variable {e : KernelEvent} {k k' : Kernel} (inv : SchedulerInv k)

include inv

theorem event (consistent : e.Consistent k) (run : e.run k = .ok k') :
    SchedulerInv k' ∧ (k.current ≠ .none → k'.current ≠ .none) := by
  refine ((e.moves consistent.frames run).keep_moved
    (P := fun k₁ => SchedulerInv k₁ ∧ (k.current ≠ .none → k₁.current ≠ .none)) ?_ inv.inside ⟨inv, id⟩).2
  rintro k₁ k₂ moved ⟨inv₁, started₁⟩
  exact ⟨inv₁.step moved, fun first => started moved (started₁ first)⟩

theorem dead_event (consistent : e.Consistent k) (run : e.run k = .ok k')
    (low : p < k.tasks.length) (stopped : (k.taskAt (.task p)).state = .stopped) :
    p < k'.tasks.length ∧ (k'.taskAt (.task p)).state = .stopped ∧
      (k'.taskAt (.task p)).resourcesReleased = (k.taskAt (.task p)).resourcesReleased := by
  refine ((e.moves consistent.frames run).keep_moved (P := fun k₁ => SchedulerInv k₁ ∧ p < k₁.tasks.length ∧
      (k₁.taskAt (.task p)).state = .stopped ∧
      (k₁.taskAt (.task p)).resourcesReleased = (k.taskAt (.task p)).resourcesReleased) ?_
    inv.inside ⟨inv, low, stopped, rfl⟩).2.2
  rintro k₁ k₂ moved ⟨inv₁, low₁, stopped₁, flag₁⟩
  obtain ⟨low₂, stopped₂, flag₂⟩ := inv₁.dead moved low₁ stopped₁
  exact ⟨inv₁.step moved, low₂, stopped₂, flag₂.trans flag₁⟩

/-- A tick returns to the frame that is saved for the current task. -/
theorem tick_saved (started : k.current ≠ .none)
    (run : schedulerOnTimerTick frame k = .ok (next, k')) : next = (k'.taskAt k'.current).frame := by
  unfold schedulerOnTimerTick at run
  split at run
  · rename_i idle
    have some_ := inv.some_ started
    simp only [inv.ready, Bool.not_true, Bool.false_or, beq_iff_eq] at idle
    omega
  · obtain ⟨k₁, reclaimed, run⟩ := bind_eq_ok run
    simp only at run
    split at run
    · cases run
      have same : ensureBootTask frame k = k := if_pos started
      rw [same] at reclaimed
      obtain ⟨m, -, reclaimed⟩ := bind_eq_ok reclaimed
      cases reclaimed
      -- Nothing before the write has changed which task is current.
      generalize woken : wakeSleepingTasks _ = k₁
      have inside : k₁.Inside := by
        intro i here
        rw [← woken] at here ⊢
        simp only [wakeSleepingTasks, List.length_map] at here ⊢
        exact inv.inside i here
      have current : k₁.current ≠ .none := by
        rw [← woken]
        exact started
      have written := Kernel.taskAt_modifyTask_self (f := fun t => { t with frame := frame }) inside current
      show frame = ((k₁.modifyTask k₁.current fun t => { t with frame := frame }).taskAt
        (k₁.modifyTask k₁.current fun t => { t with frame := frame }).current).frame
      rw [Kernel.current_modifyTask, written]
    · obtain ⟨next', k₂, resumed, rfl, -, -⟩ := resume_spec
        { (wakeSleepingTasks k₁).modifyTask (wakeSleepingTasks k₁).current
            (fun t => { t with frame := frame }) with quantumTicks := 0 }
      have same := (Except.ok.inj run).symm.trans resumed
      cases same
      rfl

/-- The frame that is returned is the one saved for the task that goes on. -/
theorem saved (consistent : e.Consistent k) (started : k.current ≠ .none)
    (returned : e.returned k = some (.ok (frame, k'))) :
    frame = (k'.taskAt k'.current).frame := by
  have leaving : ∀ {i frame' : Nat} {change : Task → Task},
      leaveCurrent i frame' change k = (frame, k') → frame = (k'.taskAt k'.current).frame := by
    intro i frame' change left
    obtain ⟨k₁, left', -, -⟩ := leaveCurrent_spec i frame' change k
    cases left.symm.trans left'
    rfl
  cases e with
  | exit frame' status =>
    obtain ⟨-, i, current⟩ := consistent
    have ran := Option.some.inj returned
    simp only [schedulerExitCurrent, current] at ran
    exact inv.stop_saved current ran
  | fault frame' vector =>
    obtain ⟨-, i, current⟩ := consistent
    have ran := Option.some.inj returned
    simp only [schedulerFaultCurrent, current] at ran
    exact inv.stop_saved current ran
  | yield frame' =>
    obtain ⟨-, i, current⟩ := consistent
    have ran := Except.ok.inj (Option.some.inj returned)
    simp only [schedulerYieldCurrent, current] at ran
    exact leaving ran
  | sleep frame' ticks =>
    obtain ⟨-, i, current⟩ := consistent
    have ran := Except.ok.inj (Option.some.inj returned)
    simp only [schedulerSleepCurrent, schedulerYieldCurrent, current] at ran
    split at ran
    · exact leaving ran
    · exact leaving ran
  | waitForInput frame' =>
    obtain ⟨-, i, current⟩ := consistent
    have ran := Except.ok.inj (Option.some.inj returned)
    simp only [schedulerWaitCurrentForInput, current] at ran
    exact leaving ran
  | tick frame' => exact inv.tick_saved started (Option.some.inj returned)
  | init | spawn | createTask | brk | wakeInputWaiters => cases returned

theorem frame_ne_zero (started : k.current ≠ .none) : (k.taskAt k.current).frame ≠ 0 := by
  obtain boot | ⟨i, low, here, runnable⟩ := inv.current started
  · rw [boot]
    exact inv.boot started
  · rw [here]
    refine inv.frames i low ?_
    rw [runnable]
    nofun

/-- There is room in the queue for the stack of a task that was not released yet. -/
theorem pending_lt (current : k.current = .task i) : k.pendingStackFree.length < maxPendingStackFree := by
  have low := inv.inside i current
  have fewer : k.releasedTasks ⊂ Finset.range k.tasks.length := by
    refine (Finset.ssubset_iff_of_subset (Finset.filter_subset _ _)).mpr ⟨i, Finset.mem_range.mpr low, ?_⟩
    intro member
    have flag := (Kernel.mem_releasedTasks.mp member).2
    rw [inv.unreleased current] at flag
    cases flag
  have counted := Finset.card_lt_card fewer
  rw [Finset.card_range] at counted
  exact inv.pending.trans_lt (counted.trans_le inv.room)

theorem stop_neverFull (current : k.current = .task i) : NeverFull (stopCurrent i frame status k) := by
  obtain ⟨k₁, left, -, alike⟩ := leaveCurrent_spec i frame
    (fun task => { task with state := .stopped, exitStatus := status }) k
  have room : k₁.pendingStackFree.length < maxPendingStackFree := by
    rw [alike.pendingStackFree]
    exact inv.pending_lt current
  unfold stopCurrent
  rw [left]
  refine .bind (.ite (.ok _) (.ite (.ok _) ?_)) fun _ => .ok _
  refine .bind (NeverFull.vmmDestroyUserAddressSpace ..) fun _ => .ite (.ok _) ?_
  rw [if_neg]
  · exact .ok _
  · exact Nat.not_le.mpr room

theorem neverFull : NeverFull (e.run k) := by
  cases e with
  | init image => exact .userInitFromModules
  | spawn path args file => exact .map NeverFull.userSpawnFromVfsWithArgs
  | createTask name trampoline entry arg => exact .map NeverFull.schedulerCreateTask
  | brk newBreak => exact .map NeverFull.schedulerSetCurrentBrk
  | exit frame status =>
    refine .map ?_
    unfold schedulerExitCurrent
    split
    · rename_i current
      exact inv.stop_neverFull current
    · exact .ok _
  | fault frame vector =>
    refine .map ?_
    unfold schedulerFaultCurrent
    split
    · rename_i current
      exact inv.stop_neverFull current
    · exact .error nofun
  | yield | sleep | waitForInput | wakeInputWaiters => exact .ok _
  | tick frame => exact .map NeverFull.schedulerOnTimerTick

/-- What an exit or a fault releases belonged to the current task, which is not current any more when
    that happens. -/
theorem releasing_spec (releasing : e.releasing k = some (i, k₁)) :
    k.current = .task i ∧ k₁.current ≠ .task i ∧ k₁.tasks.length = k.tasks.length ∧
      ∀ k', e.run k = .ok k' → Released i k₁ k' := by
  have away : ∀ {i frame status : Nat}, k.current = .task i →
      (leaveCurrent i frame (fun task => { task with state := .stopped, exitStatus := status }) k).2.current
        ≠ .task i ∧
      (leaveCurrent i frame (fun task => { task with state := .stopped, exitStatus := status })
        k).2.tasks.length = k.tasks.length := by
    intro i frame status current
    obtain ⟨k₁, left, ready, alike⟩ := leaveCurrent_spec i frame
      (fun task => { task with state := .stopped, exitStatus := status }) k
    rw [left]
    refine ⟨stopped_away ready ?_, alike.length.trans Kernel.length_modifyTask⟩
    rw [Kernel.taskAt_modifyTask (inv.inside i current), if_pos rfl]
  have released : ∀ {i frame status : Nat} {result : Nat × Kernel}, k.current = .task i →
      stopCurrent i frame status k = .ok result →
      Released i (leaveCurrent i frame
        (fun task => { task with state := .stopped, exitStatus := status }) k).2 result.2 := by
    intro i frame status result current ran
    obtain ⟨k₁, left, -, -, -, released⟩ := stopCurrent_spec (inv.inside i current) ran
    rw [left]
    exact released
  unfold KernelEvent.releasing at releasing
  split at releasing
  · rename_i frame status j current
    cases releasing
    refine ⟨current, (away current).1, (away current).2, ?_⟩
    intro k' run
    obtain ⟨result, ran, rfl⟩ := map_eq_ok run
    simp only [schedulerExitCurrent, current] at ran
    exact released current ran
  · rename_i frame vector j current
    cases releasing
    refine ⟨current, (away current).1, (away current).2, ?_⟩
    intro k' run
    obtain ⟨result, ran, rfl⟩ := map_eq_ok run
    simp only [schedulerFaultCurrent, current] at ran
    exact released current ran
  · cases releasing

end SchedulerInv

/-- A run from `scheduler_init` on, with the tasks whose stacks it has put into the queue. -/
inductive SchedulerRun (k₀ : Kernel) : List Nat → Kernel → Prop where
  | init : SchedulerRun k₀ [] (schedulerInit k₀)
  | event {log : List Nat} {k k' : Kernel} (e : KernelEvent) (before : SchedulerRun k₀ log k)
    (consistent : e.Consistent k) (run : e.run k = .ok k') : SchedulerRun k₀ (e.queued k k' ++ log) k'

/-- Every stack that was queued is the stack of a task that is released now, and no two of one task. -/
structure QueuedOnce (log : List Nat) (k : Kernel) : Prop where
  nodup : log.Nodup
  released : ∀ p ∈ log, p < k.tasks.length ∧ (k.taskAt (.task p)).resourcesReleased

theorem QueuedOnce.event {e : KernelEvent} (once : QueuedOnce log k)
    (inv : SchedulerInv k) (consistent : e.Consistent k) (run : e.run k = .ok k') :
    QueuedOnce (e.queued k k' ++ log) k' := by
  have kept : ∀ p ∈ log, p < k'.tasks.length ∧ (k'.taskAt (.task p)).resourcesReleased := by
    intro p member
    obtain ⟨low, flag⟩ := once.released p member
    obtain ⟨low', -, same⟩ := inv.dead_event consistent run low (inv.released p low flag)
    exact ⟨low', same.trans flag⟩
  unfold KernelEvent.queued
  split
  · rename_i i k₁ releasing
    split
    · exact ⟨once.nodup, kept⟩
    · obtain ⟨current, -, length, released⟩ := inv.releasing_spec releasing
      have released := released k' run
      refine ⟨List.nodup_cons.mpr ⟨?_, once.nodup⟩, ?_⟩
      · intro member
        have flag := (once.released i member).2
        rw [inv.unreleased current] at flag
        cases flag
      · intro p member
        obtain rfl | member := List.mem_cons.mp member
        · rw [released.length, length]
          exact ⟨inv.inside p current, released.resourcesReleased⟩
        · exact kept p member
  · exact ⟨once.nodup, kept⟩

theorem SchedulerRun.inv (run : SchedulerRun k₀ log k) : SchedulerInv k ∧ QueuedOnce log k := by
  induction run with
  | init => exact ⟨.init, List.nodup_nil, fun p impossible => nomatch impossible⟩
  | event e before consistent run ih =>
    exact ⟨(ih.1.event consistent run).1, ih.2.event ih.1 consistent run⟩

/-- What a run has got to, and what the next event may do. -/
structure SchedulerOk (log : List Nat) (k : Kernel) : Prop where
  /-- After the first tick, whatever returns a frame returns that of the current task, which can run. -/
  returns : ∀ e : KernelEvent, e.Consistent k → k.current ≠ .none → ∀ frame k',
    e.returned k = some (.ok (frame, k')) →
      k'.Ready k'.current ∧ frame = (k'.taskAt k'.current).frame ∧ frame ≠ 0
  /-- A stopped task stays stopped. -/
  stopped : ∀ e : KernelEvent, e.Consistent k → ∀ k', e.run k = .ok k' → ∀ p < k.tasks.length,
    (k.taskAt (.task p)).state = .stopped → (k'.taskAt (.task p)).state = .stopped
  /-- No stack has been put into the queue twice. -/
  once : log.Nodup
  /-- A stack is put there while another task is the current one. -/
  away : ∀ (e : KernelEvent) p k₁, e.releasing k = some (p, k₁) → k₁.current ≠ .task p
  /-- The queue does not overflow. -/
  room : ∀ e : KernelEvent, e.run k ≠ .error .pendingStackFreeQueueFull

/-- Dead tasks never run again, and live ones have frames, in every run of the scheduler. -/
theorem scheduler_ok {k₀ k : Kernel} {log : List Nat} (run : SchedulerRun k₀ log k) :
    SchedulerOk log k := by
  obtain ⟨inv, once⟩ := run.inv
  refine ⟨?_, ?_, once.nodup, ?_, fun e => inv.neverFull.ne⟩
  · intro e consistent started frame k' returned
    obtain ⟨inv', started'⟩ := inv.event consistent (KernelEvent.run_of_returned returned)
    have saved := inv.saved consistent started returned
    exact ⟨inv'.current (started' started), saved, saved ▸ inv'.frame_ne_zero (started' started)⟩
  · intro e consistent k' ran p low stopped
    exact (inv.dead_event consistent ran low stopped).2.1
  · intro e p k₁ releasing
    exact (inv.releasing_spec releasing).2.1

/-- The kernel before `scheduler_init`, on a machine with sixteen pages. -/
def smallKernel : Kernel where
  machine := memoryInit smallMemmap blankMachine

/-- Two dozen ticks after its creation, the task of the small kernel runs. -/
def runningEvents : List KernelEvent :=
  .createTask [0x61] 0x1000 0x2000 0 :: List.replicate 25 (.tick 0x3000)

theorem SchedulerRun.ticks {n : Nat} (run : SchedulerRun k₀ log k)
    (ticked : runEvents k (List.replicate n (.tick 0x3000)) = .ok k') : SchedulerRun k₀ log k' := by
  induction n generalizing k with
  | zero =>
    cases ticked
    exact run
  | succ n ih =>
    obtain ⟨k₁, first, rest⟩ := bind_eq_ok ticked
    exact ih (.event (.tick 0x3000) run (by decide : 0x3000 ≠ 0) first) rest

/-- The task runs and exits, and the boot task goes on. -/
theorem scheduler_ok_small :
    ∃ k k', runEvents (schedulerInit smallKernel) runningEvents = .ok k ∧ k.current = .task 0 ∧
      (KernelEvent.exit 0x3000 7).run k = .ok k' ∧ k'.current = .boot ∧ SchedulerOk [] k' := by
  have result : (runEvents (schedulerInit smallKernel) runningEvents).toOption.map (fun k =>
      (k.current, ((KernelEvent.exit 0x3000 7).run k).toOption.map fun k' =>
        (k'.current, (KernelEvent.exit 0x3000 7).queued k k')))
      = some (.task 0, some (.boot, [])) := by decide +kernel
  obtain ⟨k, ran, same⟩ := exists_ok result
  obtain ⟨current, exited⟩ := Prod.mk.inj same
  obtain ⟨k', exits, same⟩ := exists_ok exited
  obtain ⟨current', queued⟩ := Prod.mk.inj same
  obtain ⟨k₁, created, ticked⟩ := bind_eq_ok ran
  have start : SchedulerRun smallKernel [] k₁ :=
    .event (.createTask [0x61] 0x1000 0x2000 0) .init trivial created
  have run := SchedulerRun.event (.exit 0x3000 7) (start.ticks ticked) ⟨by decide, 0, current⟩ exits
  rw [queued] at run
  exact ⟨k, k', ran, current, exits, current', scheduler_ok run⟩

end TangPingOS
