import TangPingOS.Memory.PageAllocator
import TangPingOS.Process.Turns
import TangPingOS.Process.Usercopy

/-! # No lost wakeup

Keys arrive, tasks read from the terminal and wait for input, and the kernel does whatever
else it does. No task waits while a key is pending, and what the readers find in their buffers
is what was typed, in order, unless one of them has its buffer at address 0.
-/

namespace TangPingOS

open Lib Relation

def Kernel.Waiting (k : Kernel) (p : Nat) : Prop :=
  p < k.tasks.length ∧ (k.taskAt (.task p)).state = .waitingInput

def NoneBegins (k k' : Kernel) : Prop := ∀ p, k'.Waiting p → k.Waiting p

theorem NoneBegins.trans (first : NoneBegins k k₁) (second : NoneBegins k₁ k') :
    NoneBegins k k' := fun p waiting => first p (second p waiting)

theorem NoneBegins.modifyTask (step : (f (k.taskAt c)).state = .waitingInput → (k.taskAt c).state = .waitingInput) :
    NoneBegins k (k.modifyTask c f) := by
  rintro p ⟨low, state⟩
  rw [Kernel.length_modifyTask] at low
  rw [Kernel.taskAt_modifyTask low] at state
  split at state
  · rename_i here
    exact ⟨low, here ▸ step (here ▸ state)⟩
  · exact ⟨low, state⟩

theorem Kernel.Moved.noneBegins
    (never : ¬enters .waitingInput) (moved : k.Moved frames enters k') : NoneBegins k k' := by
  rintro p ⟨low, waiting⟩
  by_cases old : p < k.tasks.length
  · refine ⟨old, ?_⟩
    obtain same | ⟨-, enter⟩ | ⟨-, runnable⟩ := (moved.tasks p old).state
    · exact same.symm.trans waiting
    · exact absurd (waiting ▸ enter) never
    · cases waiting.symm.trans runnable
  · cases waiting.symm.trans (moved.new p (Nat.le_of_not_lt old) low).state

theorem KernelEvent.noneBegins {e : KernelEvent} (never : ¬e.Enters .waitingInput)
    (inside : k.Inside) (run : e.run k = .ok k') : k'.Inside ∧ NoneBegins k k' := by
  refine (e.moves e.frames_true run).keep_moved (P := NoneBegins k) ?_ inside fun p waiting => waiting
  intro k₁ k₂ moved none
  exact none.trans (moved.noneBegins never)

section Reading

variable {σ : Type} {table : List (Filesystem σ)} {s : σ} {fd buffer len : Nat} {ring : InputRing}
  {k : Kernel}

theorem state_readCurrentFile {fd : Int} (given : Bool) :
    (readCurrentFile table fd given len s t).2.state = t.state := by
  unfold readCurrentFile
  split
  · rfl
  · split
    · rfl
    · split <;> rfl

/-- What reading a file does to the tasks is of no concern to the keyboard. -/
theorem Kernel.readCurrentFile_noneBegins (table : List (Filesystem σ)) (s : σ) (fd : Int) (len : Nat)
    (inside : k.Inside) :
    (k.readCurrentFile table fd len s).2.Inside ∧ NoneBegins k (k.readCurrentFile table fd len s).2 := by
  unfold Kernel.readCurrentFile
  split
  · refine ⟨?_, .modifyTask fun state => ?_⟩
    · intro j here
      rw [Kernel.length_modifyTask]
      exact inside j (Kernel.current_modifyTask.symm.trans here)
    · exact (state_readCurrentFile true).symm.trans state
  · exact ⟨inside, fun p waiting => waiting⟩

/-- A read takes the front of the ring, and would block only on an empty one. -/
structure ReadOk (ring : InputRing) (k : Kernel) (result : ReadResult) : Prop where
  inside : result.kernel.Inside
  noneBegins : NoneBegins k result.kernel
  taken : result.taken ++ result.ring.contents = ring.contents
  blocked : result.outcome = .wouldBlock → result.ring.contents = []

theorem deliver_ok {bytes taken : Bytes} {ring₁ : InputRing} (inside : k₁.Inside)
    (none : NoneBegins k k₁) (taken_ : taken ++ ring₁.contents = ring.contents) :
    ReadOk ring k (deliver buffer bytes taken ring₁ k₁) := by
  refine ⟨inside, none, taken_, ?_⟩
  unfold deliver
  simp only
  split <;> nofun

theorem syscallRead_ok (inside : k.Inside) : ReadOk ring k (syscallRead table s fd buffer len ring k) := by
  have unchanged : NoneBegins k k := fun p waiting => waiting
  unfold syscallRead
  simp only
  split
  · exact ⟨inside, unchanged, rfl, nofun⟩
  · split
    · obtain ⟨bytes, rest⟩ := ring.read_spec (min len syscallReadChunkSize)
      split
      · rename_i none
        have empty : ring.contents = [] := by
          have nothing : ring.contents.take (min len syscallReadChunkSize) = [] := by
            rw [← bytes]
            exact List.length_eq_zero_iff.mp none.1
          obtain none' | empty := List.take_eq_nil_iff.mp nothing
          · exact absurd none' (Nat.ne_of_gt none.2)
          · exact empty
        have left : (ring.read (min len syscallReadChunkSize)).2.contents = [] := by
          rw [rest, empty, List.drop_nil]
        exact ⟨inside, unchanged, left.trans empty.symm, fun _ => left⟩
      · refine deliver_ok inside unchanged ?_
        show (ring.read _).1 ++ (ring.read _).2.contents = ring.contents
        rw [bytes, rest, List.take_append_drop]
    · have quiet := Kernel.readCurrentFile_noneBegins table s (asInt fd) (min len syscallReadChunkSize) inside
      generalize k.readCurrentFile table (asInt fd) (min len syscallReadChunkSize) s = read at quiet ⊢
      obtain ⟨result, k₁⟩ := read
      cases result with
      | none => exact ⟨quiet.1, quiet.2, rfl, nofun⟩
      | some bytes => exact deliver_ok quiet.1 quiet.2 rfl

/-- The buffer of a read of the terminal is not null, and the user cannot write to its own page tables. -/
def BufferReal (k : Kernel) (regs : SyscallFrame) : Prop :=
  k.currentFdIsTty (asInt regs.rdi) →
    regs.rsi ≠ 0 ∧ TablesHidden (vmmCurrentAddressSpace k.machine) k.machine

/-- What a read of the terminal has put into the caller's buffer, as the caller finds it there. -/
def ttyDelivered (k : Kernel) (regs : SyscallFrame) (result : ReadResult) : Bytes :=
  match result.outcome with
  | .done count =>
    if k.currentFdIsTty (asInt regs.rdi) then userBytes regs.rsi count result.kernel.machine else []
  | _ => []

/-- With a real buffer, all that was taken from the ring is in it. -/
theorem ttyDelivered_eq {regs : SyscallFrame} (real : BufferReal k regs) :
    ttyDelivered k regs (syscallRead table s regs.rdi regs.rsi regs.rdx ring k)
      = (syscallRead table s regs.rdi regs.rsi regs.rdx ring k).taken := by
  unfold syscallRead
  simp only
  split
  · rfl
  rename_i valid
  cases isTty : k.currentFdIsTty (asInt regs.rdi) with
  | false =>
    have none (result : ReadResult) : ttyDelivered k regs result = [] := by
      unfold ttyDelivered
      split
      · rw [isTty]
        rfl
      · rfl
    rw [none]
    simp only [Bool.false_eq_true, if_false]
    split <;> rfl
  | true =>
    obtain ⟨bytes, -⟩ := ring.read_spec (min regs.rdx syscallReadChunkSize)
    have length : (ttyRead (min regs.rdx syscallReadChunkSize) ring).1.length ≤ min regs.rdx syscallReadChunkSize := by
      rw [ttyRead, inputRead, bytes]
      exact List.length_take_le _ _
    simp only [if_true]
    split
    · rfl
    · obtain ⟨notNull, hidden⟩ := real isTty
      have permitted : Permitted (vmmCurrentAddressSpace k.machine) regs.rsi
          (ttyRead (min regs.rdx syscallReadChunkSize) ring).1.length true k.machine := by
        intro i low
        rw [Bool.not_eq_true, Bool.not_eq_false', usercopyValidateRange_iff (by omega)] at valid
        exact valid i (by omega)
      obtain ⟨done, read⟩ := copyToUser_read hidden notNull
        (length.trans ((Nat.min_le_right _ _).trans (by decide))) permitted
      simp only [ttyDelivered, deliver, done, isTty, if_true]
      exact read

theorem dispatchRead_cases (table : List (Filesystem σ)) (s : σ) (frame : Nat) (regs : SyscallFrame)
    (ring : InputRing) (k : Kernel) :
    (dispatchRead table s frame regs ring k).2.2 = syscallRead table s regs.rdi regs.rsi regs.rdx ring k ∨
    (syscallRead table s regs.rdi regs.rsi regs.rdx ring k).outcome = .wouldBlock ∧
      (dispatchRead table s frame regs ring k).2.2 =
        { syscallRead table s regs.rdi regs.rsi regs.rdx ring k with
          kernel := (schedulerWaitCurrentForInput frame
            (syscallRead table s regs.rdi regs.rsi regs.rdx ring k).kernel).2 } := by
  unfold dispatchRead
  generalize syscallRead table s regs.rdi regs.rsi regs.rdx ring k = result
  obtain ⟨outcome, taken, ring₁, k₁⟩ := result
  cases outcome with
  | failed => exact .inl rfl
  | wouldBlock => exact .inr ⟨rfl, rfl⟩
  | done count => exact .inl rfl

end Reading

/-- The ring and the kernel, and what has been typed and read: every key with the number of keys that
    were pending when it was pushed, and the bytes that reads have put into their callers' buffers, in order. -/
structure Keyboard where
  ring : InputRing
  kernel : Kernel
  pushed : List (UInt8 × Nat)
  delivered : Bytes

/-- What can happen, the reads being among those `allowed`. Only a read makes a task wait for input. -/
inductive KeyboardStep {σ : Type} (table : List (Filesystem σ)) (allowed : Kernel → SyscallFrame → Prop) :
    Keyboard → Keyboard → Prop where
  | key (x : Keyboard) (c : UInt8) :
    KeyboardStep table allowed x
      { x with
        ring := (ttyOnKey c x.ring x.kernel).1
        kernel := (ttyOnKey c x.ring x.kernel).2
        pushed := x.pushed ++ [(c, x.ring.count)] }
  | read (x : Keyboard) (s : σ) (frame : Nat) (regs : SyscallFrame) (fine : allowed x.kernel regs) :
    KeyboardStep table allowed x
      { x with
        ring := (dispatchRead table s frame regs x.ring x.kernel).2.2.ring
        kernel := (dispatchRead table s frame regs x.ring x.kernel).2.2.kernel
        delivered := x.delivered ++
          ttyDelivered x.kernel regs (dispatchRead table s frame regs x.ring x.kernel).2.2 }
  | kernel (x : Keyboard) (e : KernelEvent) (k' : Kernel) (other : ¬e.Enters .waitingInput)
    (run : e.run x.kernel = .ok k') : KeyboardStep table allowed x { x with kernel := k' }

def accepted (pushed : List (UInt8 × Nat)) : Bytes :=
  (pushed.filter fun key => key.2 ≠ 255).map Prod.fst

/-- A task waits only while no key is pending. -/
def WaitsForKeys (x : Keyboard) : Prop := ∀ p, x.kernel.Waiting p → x.ring.contents = []

structure KeyboardOk (x : Keyboard) : Prop where
  waits : WaitsForKeys x
  /-- What was read and what is pending are the keys that found room, in order. -/
  keys : x.delivered ++ x.ring.contents = accepted x.pushed

section Steps

variable {σ : Type} {table : List (Filesystem σ)} {allowed : Kernel → SyscallFrame → Prop} {x y : Keyboard}

theorem KeyboardStep.waits (step : KeyboardStep table allowed x y) (inside : x.kernel.Inside)
    (waits : WaitsForKeys x) : y.kernel.Inside ∧ WaitsForKeys y := by
  cases step with
  | key c =>
    refine ⟨KernelEvent.inside (e := .wakeInputWaiters) rfl inside, ?_⟩
    -- All waiting tasks are woken.
    rintro p ⟨low, state⟩
    unfold ttyOnKey schedulerWakeInputWaiters at low state
    rw [List.length_map] at low
    rw [Kernel.taskAt_map low] at state
    split at state
    · cases state
    · rename_i other
      exact absurd state other
  | read s frame regs =>
    have read : ReadOk x.ring x.kernel (syscallRead table s regs.rdi regs.rsi regs.rdx x.ring x.kernel) :=
      syscallRead_ok inside
    unfold WaitsForKeys
    obtain done | ⟨blocked, done⟩ := dispatchRead_cases table s frame regs x.ring x.kernel
    · simp only [done]
      refine ⟨read.inside, fun p waiting => ?_⟩
      have empty : x.ring.contents = [] := waits p (read.noneBegins p waiting)
      have taken := read.taken
      rw [empty] at taken
      exact (List.append_eq_nil_iff.mp taken).2
    · simp only [done]
      refine ⟨?_, fun p waiting => read.blocked blocked⟩
      exact KernelEvent.inside (e := .waitForInput frame) rfl read.inside
  | kernel e k' other run =>
    obtain ⟨inside', none⟩ := KernelEvent.noneBegins other inside run
    exact ⟨inside', fun p waiting => waits p (none p waiting)⟩

theorem KeyboardStep.keys (step : KeyboardStep table BufferReal x y) (inside : x.kernel.Inside)
    (keys : x.delivered ++ x.ring.contents = accepted x.pushed) :
    y.delivered ++ y.ring.contents = accepted y.pushed := by
  cases step with
  | key c =>
    show x.delivered ++ (x.ring.push c).contents = accepted (x.pushed ++ [(c, x.ring.count)])
    by_cases full : x.ring.count = 255
    · rw [Ring.push_full full, keys]
      simp [accepted, full]
    · rw [Ring.contents_push full, ← List.append_assoc, keys]
      simp [accepted, full]
  | read s frame regs real =>
    have read : ReadOk x.ring x.kernel (syscallRead table s regs.rdi regs.rsi regs.rdx x.ring x.kernel) :=
      syscallRead_ok inside
    have whole : ttyDelivered x.kernel regs (syscallRead table s _ _ _ x.ring _) = _ := ttyDelivered_eq real
    obtain done | ⟨blocked, done⟩ := dispatchRead_cases table s frame regs x.ring x.kernel
    · simp only [done]
      rw [whole, List.append_assoc, read.taken, keys]
    · simp only [done]
      have same := read.taken
      rw [← whole] at same
      simp only [ttyDelivered, blocked, List.nil_append] at same ⊢
      rw [List.append_nil, same, keys]
  | kernel e k' other run => exact keys

end Steps

/-- However keys, reads and everything else the kernel does are interleaved, no task waits while a key
    is pending. If no read of the terminal has a null buffer, no key that found room is lost, repeated or read
    out of order. -/
theorem no_lost_wakeup {σ : Type} {table : List (Filesystem σ)} {x : Keyboard}
    (inside : x.kernel.Inside) (empty : x.ring.contents = []) (fresh : x.pushed = [] ∧ x.delivered = []) :
    (∀ y, ReflTransGen (KeyboardStep table fun _ _ => True) x y → WaitsForKeys y) ∧
    ∀ y, ReflTransGen (KeyboardStep table BufferReal) x y → KeyboardOk y := by
  have run {allowed : Kernel → SyscallFrame → Prop} {y : Keyboard}
      (steps : ReflTransGen (KeyboardStep table allowed) x y) : y.kernel.Inside ∧ WaitsForKeys y := by
    induction steps with
    | refl => exact ⟨inside, fun _ _ => empty⟩
    | tail _ step ih => exact step.waits ih.1 ih.2
  refine ⟨fun y steps => (run steps).2, fun y steps => ⟨(run steps).2, ?_⟩⟩
  induction steps with
  | refl =>
    rw [fresh.1, fresh.2, empty]
    rfl
  | tail steps step ih => exact step.keys (run steps).1 ih

/-- Two tasks, the first of them running. Every entry of page `p` leads to page `p + 1`. -/
def twoReaders : Kernel where
  machine := { blankMachine with mem := fun p _ => (p + 1) * 4096 + 7, cr3 := 4096 }
  tasks := [{ pid := 1, frame := 4096, cr3 := 4096 }, { pid := 2, frame := 8192, cr3 := 4096 }]
  bootTask := { frame := 12288 }
  current := .task 0
  tickCount := 1
  nextPid := 3
  ready := true

def readFour : SyscallFrame where
  rax := syscallReadNumber
  rdi := 0
  rsi := 0x10000
  rdx := 4
  rip := 0x400002

def nothingTyped : Keyboard where
  ring := ⟨fun _ => 0, 0, 0, by decide, by decide⟩
  kernel := twoReaders
  pushed := []
  delivered := []

theorem twoReaders_inside : nothingTyped.kernel.Inside := by
  intro i here
  cases here
  decide

/-- The four tables lead to the fifth page, which is all that the tasks see. -/
theorem twoReaders_hidden : TablesHidden 4096 twoReaders.machine := by
  have entry (t i : Nat) : twoReaders.machine.mem t i = (t + 1) * 4096 + 7 := rfl
  have follow (p : List Nat) (t : Nat) (few : t + p.length ≤ 4) :
      walk (links twoReaders.machine.mem) t p = some (t + p.length) := by
    induction p generalizing t with
    | nil => rfl
    | cons i rest ih =>
      rw [List.length_cons] at few
      have linked : links twoReaders.machine.mem t i = some (t + 1) := by
        have low : t < 4 := by omega
        rw [links, entry]
        interval_cases t <;> decide
      rw [walk, linked, Option.bind_some, ih (t + 1) (by omega), List.length_cons]
      congr 1
      omega
  rintro virt phys found ⟨p, -, short, table⟩
  have fifth : phys / pageSize = 5 := by
    have leaf (a b c i : Nat) : translateLevels true twoReaders.machine 1 [a, b, c, i] = some 20487 := by
      simp only [translateLevels, entry, List.isEmpty_cons]
      decide
    unfold vmmTranslateUserAddr at found
    split at found
    · cases found
    · rw [show entryPage 4096 = 1 from rfl, tablePath, leaf, Option.map_some, entry_offset] at found
      cases found
      rw [show entryPage 20487 = 5 from rfl]
      unfold pageSize
      omega
  have first := follow p 1 (by omega)
  have last := Option.some.inj (first.symm.trans table)
  omega

/-- The first task begins to wait, a key wakes it, and the second task reads the key. -/
theorem no_lost_wakeup_two : ∃ x y, ReflTransGen (KeyboardStep (σ := Unit) [] BufferReal) nothingTyped x ∧
    x.kernel.Waiting 0 ∧ KeyboardOk x ∧
    ReflTransGen (KeyboardStep (σ := Unit) [] BufferReal) nothingTyped y ∧ y.delivered = [0x78] ∧
    KeyboardOk y := by
  have ok : ∀ y, ReflTransGen (KeyboardStep (σ := Unit) [] BufferReal) nothingTyped y → KeyboardOk y :=
    (no_lost_wakeup twoReaders_inside rfl ⟨rfl, rfl⟩).2
  have real {k : Kernel} (same : k.machine = twoReaders.machine) : BufferReal k readFour := by
    rintro -
    rw [same]
    exact ⟨by decide, twoReaders_hidden⟩
  have wait : ReflTransGen (KeyboardStep (σ := Unit) [] BufferReal) nothingTyped _ :=
    .single (.read _ () 4096 readFour (real rfl))
  have read := (wait.tail (.key _ 0x78)).tail (.read _ () 8192 readFour (real rfl))
  exact ⟨_, _, wait, ⟨by decide +kernel, by decide +kernel⟩, ok _ wait, read, by decide +kernel, ok _ read⟩

/-- A task reads a key to address 0, which is mapped for it. The call fails, and the key is gone. -/
theorem null_read_loses_key : ∃ x y, ReflTransGen (KeyboardStep (σ := Unit) [] fun _ _ => True) nothingTyped x ∧
    x.ring.contents = [0x78] ∧ KeyboardStep (σ := Unit) [] (fun _ _ => True) x y ∧
    (dispatchRead (σ := Unit) [] () 4096 { readFour with rsi := 0 } x.ring x.kernel).2.1.rax = u64Max ∧
    y.ring.contents = [] ∧ y.delivered = [] := by
  have typed : ReflTransGen (KeyboardStep (σ := Unit) [] fun _ _ => True) nothingTyped _ := .single (.key _ 0x78)
  exact ⟨_, _, typed, by decide +kernel, .read _ () 4096 { readFour with rsi := 0 } trivial, by decide +kernel,
    by decide +kernel, by decide +kernel⟩

end TangPingOS
