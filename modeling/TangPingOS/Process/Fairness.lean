import TangPingOS.Process.SchedulerRuns

/-! # Fairness and deadlines

A task that can run gets its turn within `MAX_TASKS * TASK_QUANTUM_TICKS` ticks, whatever
else happens meanwhile: the turns that are in front of it only get fewer. A task that
sleeps is woken by the tick it asked for, as long as its deadline fits into the counter.
-/

namespace TangPingOS

open Lib

variable {k k' k₁ : Kernel} {e : KernelEvent} {es : List KernelEvent} {frame i n next p : Nat}

def ticksIn (es : List KernelEvent) : Nat := es.countP KernelEvent.isTick

theorem ticksIn_cons : ticksIn (e :: es) = ticksIn es + e.isTick.toNat := by
  cases plain : e.isTick <;> simp [ticksIn, plain]

theorem runEvents_cons (first : e.run k = .ok k₁) (es : List KernelEvent) :
    runEvents k (e :: es) = runEvents k₁ es := by
  simp only [runEvents, List.foldlM_cons, first]
  rfl

/-! ## The search for the next task -/

/-- How far the turn is from the task `p`, in slots of a full table. -/
def rank (p index : Nat) : Nat := if index < p then p - index else maxTasks + p - index

theorem rank_pos (room : length ≤ maxTasks) (inside : p < length) (low : index < length) :
    0 < rank p index ∧ rank p index ≤ maxTasks := by
  unfold rank
  split <;> omega

theorem searchRunnable_stop
    (low : index < tasks.length) (search : searchRunnable tasks left index = (found, stop)) :
    stop < tasks.length ∧ ∀ j, found = some j → stop = j ∧ (tasks.getD j {}).state = .runnable := by
  induction left generalizing index with
  | zero =>
    cases search
    exact ⟨low, nofun⟩
  | succ left ih =>
    have next := Nat.mod_lt (index + 1) (Nat.zero_lt_of_lt low)
    simp only [searchRunnable] at search
    split at search
    · rename_i runnable
      cases search
      refine ⟨next, ?_⟩
      rintro _ ⟨⟩
      exact ⟨rfl, runnable⟩
    · exact ih next search

/-- The search gets nearer to a task that can run, and finds it if no other comes first. -/
theorem searchRunnable_rank (low : index < tasks.length) (room : tasks.length ≤ maxTasks)
    (inside : p < tasks.length) (runnable : (tasks.getD p {}).state = .runnable)
    (near : (if index < p then p - index else tasks.length + p - index) ≤ n) :
    ∃ j, searchRunnable tasks n index = (some j, j) ∧ (j = p ∨ rank p j < rank p index) := by
  induction n generalizing index with
  | zero => split at near <;> omega
  | succ n ih =>
    have step : (index + 1) % tasks.length = if index + 1 < tasks.length then index + 1 else 0 := by
      split
      · exact Nat.mod_eq_of_lt ‹_›
      · rw [show index + 1 = tasks.length by omega, Nat.mod_self]
    have nearer : (index + 1) % tasks.length = p ∨
        rank p ((index + 1) % tasks.length) < rank p index ∧
          (if (index + 1) % tasks.length < p then p - (index + 1) % tasks.length
            else tasks.length + p - (index + 1) % tasks.length) ≤ n := by
      rw [step]
      unfold rank
      split at near <;> split <;> split <;> omega
    simp only [searchRunnable]
    split
    · exact ⟨_, rfl, nearer.imp_right And.left⟩
    · rename_i other
      obtain rfl | ⟨less, near⟩ := nearer
      · exact absurd runnable other
      · obtain ⟨j, found, closer⟩ := ih (Nat.mod_lt _ (Nat.zero_lt_of_lt low)) near
        exact ⟨j, found, closer.imp_right (·.trans less)⟩

/-- What holds of the turn in every run. -/
structure TurnsOk (k : Kernel) : Prop where
  room : k.tasks.length ≤ maxTasks
  quantum : k.quantumTicks < taskQuantumTicks
  ticks : k.tickCount < 2 ^ 64
  ready : k.ready
  index : k.current ≠ .none → k.currentTaskIndex < k.tasks.length
  here : ∀ i, k.current = .task i → k.currentTaskIndex = i

namespace TurnsOk

theorem init : TurnsOk (schedulerInit k) :=
  ⟨Nat.zero_le _, Nat.zero_lt_succ _, Nat.two_pow_pos 64, rfl, nofun, nofun⟩

variable (ok : TurnsOk k)

include ok

theorem beside (same : Beside i k k') : TurnsOk k' := by
  refine ⟨same.length ▸ ok.room, same.quantum ▸ ok.quantum, same.ticks ▸ ok.ticks, same.ready ▸ ok.ready, ?_, ?_⟩
  all_goals rw [same.current, same.index]
  · rw [same.length]
    exact ok.index
  · exact ok.here

theorem resumed (started : k.current ≠ .none) : TurnsOk (resumed k) ∧ (TangPingOS.resumed k).current ≠ .none := by
  have spec := resumed_spec k
  obtain ⟨found, search, current⟩ := spec.picks
  obtain ⟨low, picked⟩ := searchRunnable_stop (ok.index started) search
  refine ⟨⟨spec.length ▸ ok.room, spec.quantum ▸ by decide, spec.ticks ▸ ok.ticks, spec.ready ▸ ok.ready,
    fun _ => spec.length ▸ low, ?_⟩, ?_⟩
  · intro i here
    cases found with
    | none => cases here.symm.trans current
    | some j =>
      cases here.symm.trans current
      exact (picked _ rfl).1
  · rw [current]
    cases found <;> nofun

theorem ticked (ticked : Ticked k k') : TurnsOk k' := by
  refine ⟨ticked.length ▸ ok.room, ticked.quantum ▸ ok.quantum, ?_, ticked.ready ▸ ok.ready, ?_, ?_⟩
  · rw [ticked.ticks]
    exact Nat.mod_lt _ (by decide)
  all_goals rw [ticked.current, ticked.index]
  · rw [ticked.length]
    exact ok.index
  · exact ok.here

theorem booted (some_ : 0 < k.tasks.length) : TurnsOk (ensureBootTask frame k) := by
  unfold ensureBootTask
  split
  · exact ok
  · refine ⟨ok.room, ok.quantum, ok.ticks, ok.ready, fun _ => ?_, nofun⟩
    have room := ok.room
    simp only [wrap64, u64Max] at room ⊢
    omega

/-- A tick, when there is a current task: the quantum goes on, or it is over. -/
theorem tick (started : k.current ≠ .none) (run : schedulerOnTimerTick frame k = .ok (next, k')) :
    ∃ k₁, Ticked k k₁ ∧ (k.quantumTicks + 1 < taskQuantumTicks ∧
        k' = { k₁ with quantumTicks := k.quantumTicks + 1 } ∨
      k.quantumTicks + 1 = taskQuantumTicks ∧ k' = TangPingOS.resumed k₁) := by
  have quantum := ok.quantum
  have small : wrap64 (k.quantumTicks + 1) = k.quantumTicks + 1 := by
    simp only [wrap64, taskQuantumTicks] at quantum ⊢
    omega
  have same : ensureBootTask frame k = k := if_pos started
  obtain ⟨idle, -⟩ | ⟨-, k₁, ticked, done⟩ := schedulerOnTimerTick_spec run
  · have low := ok.index started
    rw [ok.ready] at idle
    simp only [Bool.true_eq_false, false_or] at idle
    omega
  · rw [same] at ticked
    rw [ticked.quantum, small] at done
    exact ⟨k₁, ticked, done.imp_right fun last => ⟨by omega, last.2⟩⟩

theorem event (run : e.run k = .ok k') : TurnsOk k' ∧ (k.current ≠ .none → k'.current ≠ .none) := by
  cases e.effect e.frames_true run with
  | still n still =>
    refine ⟨⟨still.room ok.room, still.quantum ▸ ok.quantum, still.ticks ▸ ok.ticks, still.ready ▸ ok.ready,
      ?_, ?_⟩, ?_⟩
    all_goals rw [still.current]
    · rw [still.index, still.length]
      exact fun started => Nat.lt_add_right n (ok.index started)
    · rw [still.index]
      exact ok.here
    · exact id
  | leave i left =>
    obtain ⟨current, k₁, before, after⟩ := left
    obtain ⟨ok₁, started⟩ := (ok.beside before).resumed (by rw [before.current, current]; nofun)
    exact ⟨ok₁.beside after, fun _ => after.current ▸ started⟩
  | tick frame next same valid ran =>
    obtain ⟨-, rfl⟩ | ⟨some_, k₁, ticked, done⟩ := schedulerOnTimerTick_spec ran
    · exact ⟨ok, id⟩
    · have ok₁ := (ok.booted some_).ticked ticked
      have started := ticked.current ▸ current_ensureBootTask
      obtain ⟨more, rfl⟩ | ⟨-, rfl⟩ := done
      · exact ⟨{ ok₁ with quantum := more }, fun _ => started⟩
      · exact ⟨(ok₁.resumed started).1, fun _ => (ok₁.resumed started).2⟩

theorem run (run : runEvents k es = .ok k') : TurnsOk k' ∧ (k.current ≠ .none → k'.current ≠ .none) := by
  induction es generalizing k with
  | nil =>
    cases run
    exact ⟨ok, id⟩
  | cons e es ih =>
    obtain ⟨k₁, first, rest⟩ := bind_eq_ok run
    obtain ⟨ok₁, started₁⟩ := ok.event first
    obtain ⟨ok', started'⟩ := ih ok₁ rest
    exact ⟨ok', started' ∘ started₁⟩

end TurnsOk

/-- The ticks that may pass before it is the turn of the task `p`. -/
def turnsLeft (p : Nat) (k : Kernel) : Nat := taskQuantumTicks * rank p k.currentTaskIndex - k.quantumTicks

section

variable (ok : TurnsOk k) (started : k.current ≠ .none) (inside : p < k.tasks.length)
  (runnable : (k.taskAt (.task p)).state = .runnable)

include ok started inside runnable

/-- The next task goes on: it is `p`, or one with fewer turns in front of `p`. -/
theorem turnsLeft_resumed :
    (resumed k).current = .task p ∨
      turnsLeft p (resumed k) + taskQuantumTicks ≤ taskQuantumTicks * rank p k.currentTaskIndex := by
  have spec := resumed_spec k
  have low := ok.index started
  obtain ⟨found, search, current⟩ := spec.picks
  obtain ⟨j, found_, nearer⟩ := searchRunnable_rank (n := k.tasks.length) low ok.room inside runnable
    (by split <;> omega)
  cases search.symm.trans found_
  obtain rfl | nearer := nearer
  · exact .inl current
  · simp only [turnsLeft, taskQuantumTicks] at *
    omega

/-- Every tick takes one of the turns away, and nothing adds one. -/
theorem turnsLeft_event (other : k.current ≠ .task p) (run : e.run k = .ok k') :
    k'.current = .task p ∨ turnsLeft p k' + e.isTick.toNat ≤ turnsLeft p k := by
  have quantum := ok.quantum
  cases e.effect e.frames_true run with
  | still n still quiet plain =>
    simp [turnsLeft, still.index, still.quantum, plain]
  | leave i left move plain =>
    obtain ⟨current, k₁, before, after⟩ := left
    have apart : p ≠ i := fun same => other (same ▸ current)
    obtain mine | fewer := turnsLeft_resumed (ok.beside before) (before.current ▸ started)
      (before.length ▸ inside) (before.others p inside apart ▸ runnable)
    · exact .inl (after.current.trans mine)
    · rw [before.index] at fewer
      simp only [turnsLeft, after.index, after.quantum, plain, Bool.toNat_false] at *
      omega
  | tick frame next same valid ran =>
    subst same
    obtain ⟨k₁, ticked, ⟨more, rfl⟩ | ⟨last, rfl⟩⟩ := ok.tick started ran
    · have nearer := rank_pos ok.room inside (ok.index started)
      simp only [turnsLeft, ticked.index, KernelEvent.isTick, Bool.toNat_true, taskQuantumTicks] at *
      omega
    · have stays : (k₁.taskAt (.task p)).state = .runnable := by
        rw [(ticked.tasks p inside).2, runnable]
        rfl
      refine (turnsLeft_resumed (ok.ticked ticked) (ticked.current ▸ started) (ticked.length ▸ inside)
        stays).imp_right fun fewer => ?_
      rw [ticked.index] at fewer
      simp only [turnsLeft, KernelEvent.isTick, Bool.toNat_true] at *
      omega

end

theorem turnsLeft_run (ok : TurnsOk k) (started : k.current ≠ .none)
    (stays : ∀ seen k₁, seen <+: es → runEvents k seen = .ok k₁ →
      p < k₁.tasks.length ∧ (k₁.taskAt (.task p)).state = .runnable) (run : runEvents k es = .ok k') :
    (∃ seen k₁, seen <+: es ∧ runEvents k seen = .ok k₁ ∧ k₁.current = .task p) ∨
      turnsLeft p k' + ticksIn es ≤ turnsLeft p k := by
  induction es generalizing k with
  | nil =>
    cases run
    exact .inr le_rfl
  | cons e es ih =>
    obtain ⟨inside, runnable⟩ := stays [] k List.nil_prefix rfl
    obtain ⟨k₁, first, rest⟩ := bind_eq_ok run
    have after := runEvents_cons first
    by_cases mine : k.current = .task p
    · exact .inl ⟨[], k, List.nil_prefix, rfl, mine⟩
    · obtain ⟨ok₁, started₁⟩ := ok.event first
      have later := ih ok₁ (started₁ started) (fun seen k₂ short ran =>
        stays (e :: seen) k₂ (List.cons_prefix_cons.mpr ⟨rfl, short⟩) ((after seen).trans ran)) rest
      obtain ⟨seen, k₂, short, ran, mine⟩ | fewer := later
      · exact .inl ⟨e :: seen, k₂, List.cons_prefix_cons.mpr ⟨rfl, short⟩, (after seen).trans ran, mine⟩
      · obtain mine | less := turnsLeft_event ok started inside runnable mine first
        · exact .inl ⟨[e], k₁, List.cons_prefix_cons.mpr ⟨rfl, List.nil_prefix⟩, after [], mine⟩
        · rw [ticksIn_cons]
          omega

/-- A task that can run all the time gets its turn within `MAX_TASKS * TASK_QUANTUM_TICKS` ticks, whatever
    else happens. -/
theorem round_robin {k₀ : Kernel} {es₀ : List KernelEvent} (reached : runEvents (schedulerInit k₀) es₀ = .ok k)
    (started : k.current ≠ .none) (run : runEvents k es = .ok k')
    (window : maxTasks * taskQuantumTicks ≤ ticksIn es)
    (stays : ∀ seen k₁, seen <+: es → runEvents k seen = .ok k₁ →
      p < k₁.tasks.length ∧ (k₁.taskAt (.task p)).state = .runnable) :
    ∃ seen k₁, seen <+: es ∧ runEvents k seen = .ok k₁ ∧ k₁.current = .task p := by
  have ok := (TurnsOk.init.run reached).1
  obtain ⟨ok', started'⟩ := ok.run run
  refine (turnsLeft_run ok started stays run).resolve_right fun fewer => ?_
  have first := rank_pos ok.room (stays [] k List.nil_prefix rfl).1 (ok.index started)
  have last := rank_pos ok'.room (stays es k' List.prefix_rfl run).1 (ok'.index (started' started))
  have quantum := ok'.quantum
  simp only [turnsLeft, taskQuantumTicks] at *
  omega

/-- A task is created, the timer ticks, and the boot task is the current one. -/
def smallEvents : List KernelEvent := [.createTask [0x61] 0x1000 0x2000 0, .tick 0x3000]

/-- The only task can run all the time, and gets its turn. -/
theorem round_robin_one :
    ∃ k k', runEvents (schedulerInit smallKernel) smallEvents = .ok k ∧ k.current = .boot ∧
      runEvents k (List.replicate 200 (.tick 0x3000)) = .ok k' ∧
      ∃ seen k₁, seen <+: List.replicate 200 (.tick 0x3000) ∧ runEvents k seen = .ok k₁ ∧ k₁.current = .task 0 := by
  have result : (runEvents (schedulerInit smallKernel) smallEvents).toOption.map (fun k =>
      (k.current, (List.range 201).map fun n => (runEvents k (List.replicate n (.tick 0x3000))).toOption.map
        fun k => (k.tasks.length, (k.taskAt (.task 0)).state)))
      = some (.boot, List.replicate 201 (some (1, .runnable))) := by decide +kernel
  obtain ⟨k, run, same⟩ := exists_ok result
  simp only [Prod.mk.injEq] at same
  obtain ⟨current, states⟩ := same
  have state : ∀ n ≤ 200, ∃ k₁, runEvents k (List.replicate n (.tick 0x3000)) = .ok k₁ ∧
      0 < k₁.tasks.length ∧ (k₁.taskAt (.task 0)).state = .runnable := by
    intro n few
    have entry := List.eq_replicate_iff.mp states |>.2 _ (List.mem_map_of_mem (List.mem_range.mpr (by omega : n < 201)))
    obtain ⟨k₁, ran, same⟩ := exists_ok entry
    simp only [Prod.mk.injEq] at same
    exact ⟨k₁, ran, same.1 ▸ Nat.one_pos, same.2⟩
  obtain ⟨k', run', -⟩ := state 200 le_rfl
  refine ⟨k, k', run, current, run', round_robin run (by rw [current]; nofun) run' (by decide +kernel) ?_⟩
  intro seen k₁ short ran
  obtain ⟨n, few, rfl⟩ := List.sublist_replicate_iff.mp short.sublist
  obtain ⟨k₂, ran', fine⟩ := state n few
  cases ran.symm.trans ran'
  exact fine

/-- The task `p` sleeps until the tick `due`. -/
structure Sleeps (p due : Nat) (k : Kernel) : Prop where
  inside : p < k.tasks.length
  state : (k.taskAt (.task p)).state = .sleeping
  due : (k.taskAt (.task p)).wakeTick = due
  away : k.current ≠ .task p

def Kernel.Runnable (k : Kernel) (p : Nat) : Prop := (k.taskAt (.task p)).state = .runnable

theorem Sleeps.not_runnable {due} (sleeps : Sleeps p due k) : ¬k.Runnable p :=
  fun runnable => nomatch sleeps.state.symm.trans runnable

/-- Whoever goes on next, it is not a task that sleeps. -/
theorem resumed_away (ok : TurnsOk k) (started : k.current ≠ .none)
    (state : (k.taskAt (.task p)).state = .sleeping) : (resumed k).current ≠ .task p := by
  obtain ⟨found, search, current⟩ := (resumed_spec k).picks
  obtain ⟨-, picked⟩ := searchRunnable_stop (ok.index started) search
  intro mine
  cases found with
  | none => cases mine.symm.trans current
  | some j =>
    cases mine.symm.trans current
    cases state.symm.trans (picked p rfl).2

theorem Sleeps.resumed {due} (ok : TurnsOk k) (started : k.current ≠ .none) (inside : p < k.tasks.length)
    (state : (k.taskAt (.task p)).state = .sleeping) (wake : (k.taskAt (.task p)).wakeTick = due) :
    Sleeps p due (resumed k) := by
  have spec := resumed_spec k
  exact ⟨spec.length ▸ inside, (spec.tasks p).1.trans state, (spec.tasks p).2.trans wake,
    resumed_away ok started state⟩

/-- What an event means for a task that sleeps: only a tick counts, and it wakes the task when it is due. -/
theorem Sleeps.event {due} (sleeps : Sleeps p due k) (ok : TurnsOk k) (started : k.current ≠ .none)
    (run : e.run k = .ok k') :
    k'.tickCount = wrap64 (k.tickCount + e.isTick.toNat) ∧
      (e.isTick → due ≤ k'.tickCount → k'.Runnable p) ∧
      ((e.isTick → k'.tickCount < due) → Sleeps p due k') := by
  cases e.effect e.frames_true run with
  | still n still quiet plain =>
    obtain ⟨state, wake⟩ := still.sleeps p sleeps.inside sleeps.state
    refine ⟨by rw [still.ticks, plain]; exact (Nat.mod_eq_of_lt ok.ticks).symm, by simp [plain], fun _ => ?_⟩
    exact ⟨still.length ▸ Nat.lt_add_right n sleeps.inside, state, wake.trans sleeps.due,
      still.current ▸ sleeps.away⟩
  | leave i left move plain =>
    obtain ⟨current, k₁, before, after⟩ := left
    have apart : p ≠ i := fun same => sleeps.away (same ▸ current)
    have same := before.others p sleeps.inside apart
    have asleep : Sleeps p due (TangPingOS.resumed k₁) :=
      .resumed (ok.beside before) (before.current ▸ started) (before.length ▸ sleeps.inside)
        (same ▸ sleeps.state) (same ▸ sleeps.due)
    refine ⟨?_, by simp [plain], fun _ => ?_⟩
    · rw [after.ticks, (resumed_spec k₁).ticks, before.ticks, plain]
      exact (Nat.mod_eq_of_lt ok.ticks).symm
    · have same := after.others p asleep.inside apart
      exact ⟨after.length ▸ asleep.inside, same ▸ asleep.state, same ▸ asleep.due, after.current ▸ asleep.away⟩
  | tick frame next same valid ran =>
    subst same
    obtain ⟨k₁, ticked, done⟩ := ok.tick started ran
    obtain ⟨wake, state⟩ := ticked.tasks p sleeps.inside
    rw [sleeps.state, sleeps.due, ← ticked.ticks] at state
    simp only [true_and] at state
    have spec := resumed_spec k₁
    have count : k'.tickCount = k₁.tickCount := by
      obtain ⟨-, rfl⟩ | ⟨-, rfl⟩ := done
      · rfl
      · exact spec.ticks
    rw [count]
    refine ⟨ticked.ticks, fun _ due => ?_, fun early => ?_⟩
    · rw [if_pos due] at state
      obtain ⟨-, rfl⟩ | ⟨-, rfl⟩ := done
      · exact state
      · exact (spec.tasks p).1.trans state
    · rw [if_neg (Nat.not_le.mpr (early rfl))] at state
      have inside := ticked.length ▸ sleeps.inside
      obtain ⟨-, rfl⟩ | ⟨-, rfl⟩ := done
      · exact ⟨inside, state, wake.trans sleeps.due, ticked.current ▸ sleeps.away⟩
      · exact .resumed (ok.ticked ticked) (ticked.current ▸ started) inside state (wake.trans sleeps.due)

/-- The task sleeps on through a run in which no tick is due. -/
theorem Sleeps.run {due} (sleeps : Sleeps p due k) (ok : TurnsOk k) (started : k.current ≠ .none)
    (run : runEvents k es = .ok k') (early : ∀ j, 0 < j → j ≤ ticksIn es → wrap64 (k.tickCount + j) < due) :
    Sleeps p due k' ∧ k'.tickCount = wrap64 (k.tickCount + ticksIn es) := by
  induction es generalizing k with
  | nil =>
    cases run
    exact ⟨sleeps, (Nat.mod_eq_of_lt ok.ticks).symm⟩
  | cons e es ih =>
    obtain ⟨k₁, first, rest⟩ := bind_eq_ok run
    obtain ⟨count, -, on⟩ := sleeps.event ok started first
    obtain ⟨ok₁, started₁⟩ := ok.event first
    have shift : ∀ j, wrap64 (k₁.tickCount + j) = wrap64 (k.tickCount + (j + e.isTick.toNat)) := fun j => by
      rw [count, Nat.add_comm j, ← Nat.add_assoc]
      exact Nat.mod_add_mod ..
    rw [ticksIn_cons] at early ⊢
    rw [← shift]
    refine ih (on fun tick => ?_) ok₁ (started₁ started) rest fun j some_ few => ?_
    · rw [count, tick]
      exact early 1 Nat.one_pos (by simp [tick])
    · rw [shift]
      exact early _ (by omega) (by omega)

/-- A task whose time has come is woken by the first tick there is. -/
theorem Sleeps.woken {due} (sleeps : Sleeps p due k) (ok : TurnsOk k) (started : k.current ≠ .none)
    (late : due ≤ wrap64 (k.tickCount + 1)) (run : runEvents k es = .ok k') (some_ : 0 < ticksIn es) :
    ∃ seen k₁, runEvents k seen = .ok k₁ ∧ ticksIn seen = 1 ∧ k₁.Runnable p := by
  induction es generalizing k with
  | nil => cases some_
  | cons e es ih =>
    obtain ⟨k₁, first, rest⟩ := bind_eq_ok run
    obtain ⟨count, woken, on⟩ := sleeps.event ok started first
    obtain ⟨ok₁, started₁⟩ := ok.event first
    cases tick : e.isTick with
    | true =>
      rw [tick] at count
      exact ⟨[e], k₁, runEvents_cons first [], by simp [ticksIn, tick], woken tick (count ▸ late)⟩
    | false =>
      have same : k₁.tickCount = k.tickCount := by
        rw [count, tick]
        exact Nat.mod_eq_of_lt ok.ticks
      rw [ticksIn_cons, tick] at some_
      obtain ⟨seen, k₂, ran, one, runnable⟩ := ih (on (by simp [tick])) ok₁ (started₁ started) (same ▸ late) rest some_
      exact ⟨e :: seen, k₂, (runEvents_cons first seen).trans ran, by rw [ticksIn_cons, tick, one]; rfl, runnable⟩

/-- The heap takes back the stacks that wait to be freed. -/
def Kernel.Reclaims (k : Kernel) : Prop :=
  ∃ m, k.pendingStackFree.reverse.foldlM (fun m stack => kfree stack m) k.machine = .ok m

theorem kfree_heap {m m' m₁ : Machine} (same : m'.heap = m.heap) (freed : kfree stack m = .ok m₁) :
    ∃ m₁', kfree stack m' = .ok m₁' ∧ m₁'.heap = m₁.heap := by
  unfold kfree at freed ⊢
  rw [same]
  by_cases null : stack = 0
  · rw [if_pos null] at freed ⊢
    cases freed
    exact ⟨m', rfl, same⟩
  · rw [if_neg null] at freed ⊢
    cases released : heapRelease (stack - heapHeaderSize) m.heap.blocks with
    | none =>
      rw [released] at freed
      cases freed
    | some blocks =>
      rw [released] at freed
      cases freed
      exact ⟨_, rfl, rfl⟩

/-- Freeing stacks looks only at the heap. -/
theorem Kernel.Reclaims.congr (reclaims : k.Reclaims) (heap : k'.machine.heap = k.machine.heap)
    (pending : k'.pendingStackFree = k.pendingStackFree) : k'.Reclaims := by
  obtain ⟨m₁, freed⟩ := reclaims
  unfold Kernel.Reclaims
  rw [pending]
  generalize k.pendingStackFree.reverse = waiting at *
  generalize k.machine = m, k'.machine = m' at *
  induction waiting generalizing m m' with
  | nil => exact ⟨m', rfl⟩
  | cons stack rest ih =>
    obtain ⟨m₂, first, later⟩ := bind_eq_ok freed
    obtain ⟨m₂', ran, same⟩ := kfree_heap heap first
    obtain ⟨m₁', last⟩ := ih m₂ m₂' same later
    exact ⟨m₁', by rw [List.foldlM_cons, ran]; exact last⟩

theorem Kernel.Reclaims.tick (reclaims : k.Reclaims) (frame : Nat) (started : k.current ≠ .none) :
    ∃ k', runEvents k [.tick frame] = .ok k' := by
  obtain ⟨m, freed⟩ := reclaims
  have same : ensureBootTask frame k = k := if_pos started
  have reclaimed : reclaimPendingStacks { k with tickCount := wrap64 (k.tickCount + 1) } = .ok (advanced m k) := by
    unfold reclaimPendingStacks
    simp only [freed]
    rfl
  cases ran : schedulerOnTimerTick frame k with
  | ok r => exact ⟨r.2, runEvents_cons (by rw [KernelEvent.run, ran]; rfl) []⟩
  | error e =>
    simp only [schedulerOnTimerTick, same, reclaimed] at ran
    split at ran
    · cases ran
    · change (if wrap64 (_ + 1) < taskQuantumTicks then _ else _) = _ at ran
      split at ran <;> cases ran

theorem Sleeps.begin (ok : TurnsOk k) (current : k.current = .task p) (some_ : 0 < n) (frame : Nat) :
    Sleeps p (wrap64 (k.tickCount + n)) (schedulerSleepCurrent frame n k).2 ∧
      (schedulerSleepCurrent frame n k).2.tickCount = k.tickCount ∧
      (k.Reclaims → (schedulerSleepCurrent frame n k).2.Reclaims) := by
  have low : p < k.tasks.length := ok.here p current ▸ ok.index (by rw [current]; nofun)
  simp only [schedulerSleepCurrent, Nat.ne_of_gt some_, current]
  have before := Beside.modify p k k.machine k.pendingStackFree fun task =>
    { task with frame := frame, state := .sleeping, wakeTick := wrap64 (k.tickCount + n) }
  have task := Kernel.taskAt_modifyTask (c := .task p) (f := fun task =>
    { task with frame := frame, state := .sleeping, wakeTick := wrap64 (k.tickCount + n) }) low
  rw [if_pos rfl] at task
  refine ⟨.resumed (ok.beside before) ?_ (before.length ▸ low) (congrArg Task.state task)
    (congrArg Task.wakeTick task), (resumed_spec _).ticks,
    fun reclaims => reclaims.congr (resumed_spec _).heap (resumed_spec _).pending⟩
  show k.current ≠ .none
  rw [current]
  nofun

/-- Whatever happens, the task is not woken before the tick `n` from now on, and it is woken by that tick. -/
def SleepsExactly (p n : Nat) (k : Kernel) : Prop :=
  ∀ es k', runEvents k es = .ok k' → (ticksIn es < n → ¬k'.Runnable p) ∧
    ∀ frame k'', ticksIn es + 1 = n → (KernelEvent.tick frame).run k' = .ok k'' → k''.Runnable p

/-- On a sound heap, a task sleeps just as long as it asked if its deadline fits into the counter, or the
    counter is about to wrap around. -/
theorem sleep_exact_iff {k₀ : Kernel} {es₀ : List KernelEvent}
    (reached : runEvents (schedulerInit k₀) es₀ = .ok k) (reclaims : k.Reclaims) (current : k.current = .task p)
    (some_ : 0 < n) (small : n < 2 ^ 64) :
    SleepsExactly p n (schedulerSleepCurrent frame n k).2 ↔
      k.tickCount + n < 2 ^ 64 ∨ k.tickCount + 1 = 2 ^ 64 := by
  have ok := (TurnsOk.init.run reached).1
  have low := ok.ticks
  obtain ⟨sleeps, same, reclaims₁⟩ := Sleeps.begin ok current some_ frame
  obtain ⟨ok₁, started₁⟩ := ok.event (e := .sleep frame n) rfl
  have started := started₁ (by rw [current]; nofun)
  generalize (schedulerSleepCurrent frame n k).2 = k₁ at *
  constructor
  · intro exact_
    by_contra others
    push Not at others
    obtain ⟨overflow, early⟩ := others
    obtain ⟨k', ticked⟩ := (reclaims₁ reclaims).tick frame started
    obtain ⟨seen, k₂, ran, one, runnable⟩ := sleeps.woken ok₁ started
      (by simp only [wrap64]; omega) ticked Nat.one_pos
    exact (exact_ seen k₂ ran).1 (by omega) runnable
  · intro fits es k' run
    have early : ticksIn es < n → ∀ j, 0 < j → j ≤ ticksIn es →
        wrap64 (k₁.tickCount + j) < wrap64 (k.tickCount + n) := by
      intro before j some_ few
      simp only [wrap64]
      omega
    refine ⟨fun before => (sleeps.run ok₁ started run (early before)).1.not_runnable, ?_⟩
    intro frame' k'' last ticked
    obtain ⟨asleep, count⟩ := sleeps.run ok₁ started run (early (by omega))
    obtain ⟨ok', started'⟩ := ok₁.run run
    obtain ⟨count', woken, -⟩ := asleep.event ok' (started' started) ticked
    refine woken rfl (le_of_eq ?_)
    rw [count', count, same, ← last]
    simp [wrap64, KernelEvent.isTick, Nat.add_assoc]

theorem runningEvents_result :
    ∃ k, runEvents (schedulerInit smallKernel) runningEvents = .ok k ∧ k.current = .task 0 ∧ k.tickCount = 25 ∧
      k.pendingStackFree = [] ∧
      ∃ k', (KernelEvent.tick 0x3000).run (schedulerSleepCurrent 0x3000 (2 ^ 64 - 1) k).2 = .ok k' ∧ k'.Runnable 0 := by
  have result : (runEvents (schedulerInit smallKernel) runningEvents).toOption.map (fun k =>
      (k.current, k.tickCount, k.pendingStackFree, ((KernelEvent.tick 0x3000).run
        (schedulerSleepCurrent 0x3000 (2 ^ 64 - 1) k).2).toOption.map fun k => (k.taskAt (.task 0)).state))
      = some (.task 0, 25, [], some .runnable) := by decide +kernel
  obtain ⟨k, run, same⟩ := exists_ok result
  simp only [Prod.mk.injEq] at same
  exact ⟨k, run, same.1, same.2.1, same.2.2.1, exists_ok same.2.2.2⟩

theorem sleep_exact_five :
    ∃ k, runEvents (schedulerInit smallKernel) runningEvents = .ok k ∧ k.current = .task 0 ∧
      SleepsExactly 0 5 (schedulerSleepCurrent 0x3000 5 k).2 := by
  obtain ⟨k, run, current, ticks, pending, -⟩ := runningEvents_result
  have reclaims : k.Reclaims := ⟨k.machine, by rw [pending]; rfl⟩
  exact ⟨k, run, current,
    (sleep_exact_iff run reclaims current (by decide) (by decide)).mpr (.inl (by rw [ticks]; decide))⟩

/-- The deadline wraps around, and the next tick wakes the task. -/
theorem sleep_cut_short :
    ∃ k, runEvents (schedulerInit smallKernel) runningEvents = .ok k ∧ k.current = .task 0 ∧
      ∃ k', runEvents (schedulerSleepCurrent 0x3000 (2 ^ 64 - 1) k).2 [.tick 0x3000] = .ok k' ∧ k'.Runnable 0 := by
  obtain ⟨k, run, current, -, -, k', ticked, runnable⟩ := runningEvents_result
  exact ⟨k, run, current, k', runEvents_cons ticked [], runnable⟩

end TangPingOS
