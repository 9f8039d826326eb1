import TangPingOS.Process.Turns

/-! # Tasks that run, and tasks that do not any more

The invariant of the scheduler: what `current_task` points to can run, every task that can
run has a frame to go on from, and there are never more stacks in the queue than tasks
whose resources have been released. Each move keeps it.
-/

namespace TangPingOS

open Lib Relation

variable {frame i p : Nat}

namespace Kernel

def releasedTasks (k : Kernel) : Finset Nat :=
  (Finset.range k.tasks.length).filter fun p => (k.taskAt (.task p)).resourcesReleased

theorem mem_releasedTasks {k : Kernel} :
    p ∈ k.releasedTasks ↔ p < k.tasks.length ∧ (k.taskAt (.task p)).resourcesReleased := by
  rw [releasedTasks, Finset.mem_filter, Finset.mem_range]

end Kernel

/-- What holds of the tasks, whichever is the current one. -/
structure TasksOk (k : Kernel) : Prop where
  room : k.tasks.length ≤ maxTasks
  frames : ∀ p < k.tasks.length, (k.taskAt (.task p)).state ≠ .stopped → (k.taskAt (.task p)).frame ≠ 0
  released : ∀ p < k.tasks.length, (k.taskAt (.task p)).resourcesReleased →
    (k.taskAt (.task p)).state = .stopped
  pending : k.pendingStackFree.length ≤ k.releasedTasks.card

structure SchedulerInv (k : Kernel) : Prop extends TasksOk k where
  current : k.current ≠ .none → k.Ready k.current
  boot : k.current ≠ .none → k.bootTask.frame ≠ 0
  /-- A tick does something once there is a current task. -/
  ready : k.ready
  some_ : k.current ≠ .none → 0 < k.tasks.length

namespace SchedulerInv

variable {enters : TaskState → Prop} {k k' : Kernel}

theorem init : SchedulerInv (schedulerInit k) where
  room := Nat.zero_le _
  current started := absurd rfl started
  frames p low := absurd low (Nat.not_lt_zero p)
  boot started := absurd rfl started
  released p low := absurd low (Nat.not_lt_zero p)
  pending := Nat.zero_le _
  ready := rfl
  some_ started := absurd rfl started

theorem inside (inv : SchedulerInv k) : k.Inside := by
  intro i here
  have ready := inv.current (by rw [here]; nofun)
  rw [here] at ready
  exact ready.inside

theorem running (inv : SchedulerInv k) (current : k.current = .task i) :
    (k.taskAt (.task i)).state = .runnable := by
  obtain impossible | ⟨j, -, same, runnable⟩ := inv.current (by rw [current]; nofun)
  · rw [current] at impossible
    cases impossible
  · rw [current] at same
    cases same
    exact runnable

theorem unreleased (inv : SchedulerInv k) (current : k.current = .task i) :
    (k.taskAt (.task i)).resourcesReleased = false := by
  by_contra released
  have stopped := inv.released i (inv.inside i current) (by simpa using released)
  rw [inv.running current] at stopped
  cases stopped

/-- The state that a stopped task leaves: it is not current any more. -/
theorem stopped_away (ready : k.Ready c) (stopped : (k.taskAt (.task i)).state = .stopped) : c ≠ .task i := by
  rintro rfl
  obtain impossible | ⟨j, -, same, runnable⟩ := ready
  · cases impossible
  · cases same
    rw [stopped] at runnable
    cases runnable

/-- Another task goes on, at the frame that is saved for it. -/
theorem stop_saved (inv : SchedulerInv k) (current : k.current = .task i)
    (run : stopCurrent i frame status k = .ok (next, k')) : next = (k'.taskAt k'.current).frame := by
  have inside := inv.inside i current
  obtain ⟨k₁, -, returned, ready, alike, released⟩ := stopCurrent_spec inside run
  have away : k₁.current ≠ .task i := by
    refine stopped_away ready ?_
    rw [Kernel.taskAt_modifyTask inside, if_pos rfl]
    rfl
  rw [released.current, returned]
  obtain boot | ⟨j, low, here, -⟩ := ready.alike alike
  · rw [boot]
    exact congrArg Task.frame released.bootTask.symm
  · rw [here, released.others j low fun same => away (same ▸ here)]

section

variable (moved : k.Moved (· ≠ 0) enters k')

include moved

theorem started (started : k.current ≠ .none) : k'.current ≠ .none := by
  obtain ready | ⟨same, -⟩ := moved.current
  · exact ready.ne_none
  · exact same ▸ started

theorem releasedTasks_subset : k.releasedTasks ⊆ k'.releasedTasks := by
  intro p member
  obtain ⟨low, flag⟩ := Kernel.mem_releasedTasks.mp member
  refine Kernel.mem_releasedTasks.mpr ⟨low.trans_le moved.length, ?_⟩
  obtain same | ⟨-, -, flag'⟩ := (moved.tasks p low).released
  · exact same.trans flag
  · exact flag'

variable (inv : SchedulerInv k)

include inv

theorem pending_le : k'.pendingStackFree.length ≤ k'.releasedTasks.card := by
  have subset := releasedTasks_subset moved
  obtain fewer | ⟨p, low, before, after, queued⟩ := moved.pending
  · exact (fewer.trans inv.pending).trans (Finset.card_le_card subset)
  · have fresh : p ∉ k.releasedTasks := fun member => by
      rw [Kernel.mem_releasedTasks, before] at member
      cases member.2
    have member := Kernel.mem_releasedTasks.mpr ⟨low.trans_le moved.length, after⟩
    have counted := Finset.card_le_card (Finset.insert_subset member subset)
    rw [Finset.card_insert_of_notMem fresh] at counted
    rw [queued]
    exact (Nat.succ_le_succ inv.pending).trans counted

theorem step : SchedulerInv k' where
  room := moved.room inv.room
  frames p low running := by
    by_cases old : p < k.tasks.length
    · have task := moved.tasks p old
      obtain same | ⟨-, valid⟩ | stopped := task.frame
      · rw [same]
        refine inv.frames p old fun stopped => ?_
        -- A stopped task is neither the current one nor one that waits.
        obtain state | ⟨own, -⟩ | ⟨blocked, -⟩ := task.state
        · exact running (state.trans stopped)
        · rw [inv.running own] at stopped
          cases stopped
        · rw [stopped] at blocked
          simp at blocked
      · exact valid
      · exact absurd stopped running
    · exact (moved.new p (Nat.le_of_not_lt old) low).frame
  released p low flag := by
    by_cases old : p < k.tasks.length
    · have task := moved.tasks p old
      obtain same | ⟨-, stopped, -⟩ := task.released
      · have stopped := inv.released p old (same ▸ flag)
        obtain state | ⟨own, -⟩ | ⟨blocked, -⟩ := task.state
        · exact state.trans stopped
        · rw [inv.running own] at stopped
          cases stopped
        · rw [stopped] at blocked
          simp at blocked
      · exact stopped
    · rw [(moved.new p (Nat.le_of_not_lt old) low).resourcesReleased] at flag
      cases flag
  pending := pending_le moved inv
  current started := by
    obtain ready | ⟨same, states⟩ := moved.current
    · exact ready
    · obtain boot | ⟨i, low, here, runnable⟩ := inv.current (same ▸ started)
      · exact .inl (same.trans boot)
      · refine .inr ⟨i, low.trans_le moved.length, same.trans here, ?_⟩
        exact (states i low).elim (·.trans runnable) id
  boot started := by
    obtain same | valid := moved.boot
    · obtain before | ⟨-, valid⟩ := moved.begins started
      · rw [same]
        exact inv.boot before
      · exact valid
    · exact valid
  ready := moved.ready.trans inv.ready
  some_ started := by
    obtain before | ⟨some_, -⟩ := moved.begins started
    · exact (inv.some_ before).trans_le moved.length
    · exact some_.trans_le moved.length

/-- A move leaves a stopped task stopped, and released if it was. -/
theorem dead (low : p < k.tasks.length) (stopped : (k.taskAt (.task p)).state = .stopped) :
    p < k'.tasks.length ∧ (k'.taskAt (.task p)).state = .stopped ∧
      (k'.taskAt (.task p)).resourcesReleased = (k.taskAt (.task p)).resourcesReleased := by
  have task := moved.tasks p low
  have other : k.current ≠ .task p := fun own => by
    rw [inv.running own] at stopped
    cases stopped
  refine ⟨low.trans_le moved.length, ?_, task.released.resolve_right fun own => other own.1⟩
  obtain state | ⟨own, -⟩ | ⟨blocked, -⟩ := task.state
  · exact state.trans stopped
  · exact absurd own other
  · rw [stopped] at blocked
    simp at blocked

end

end SchedulerInv

end TangPingOS
