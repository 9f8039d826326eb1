import TangPingOS.Process.Writes

/-! # Appending to a file

Tasks that share a file of the memory filesystem through descriptors opened for appending.
System calls run to their end with interrupts off, so a run is a sequence of whole calls,
of whichever task is current, and of what else the scheduler and the programs do.
-/

namespace TangPingOS

open Lib

section Appends

variable {β : Type} (blocks : List (Filesystem (BootState β))) (p : Bytes)

/-- A descriptor of the current task, open for appending to the file. -/
def AppendsTo (fd : Int) (k : Kernel) : Prop :=
  ∃ i index file, k.current = .task i ∧ i < k.tasks.length ∧
    currentVfsFile fd (k.taskAt (.task i)) = some (index, file) ∧ file.path = p ∧ file.append

/-- What may happen between two points of a run, with the buffers written to the file. -/
inductive AppendStep : BootState β × Kernel → List Bytes → BootState β × Kernel → Prop where
  /-- A write system call that succeeds. -/
  | write {s s' : BootState β} {k k' : Kernel} {fd buf len written : Nat} (appends : AppendsTo p (asInt fd) k)
    (succeeds : syscallWrite (bootTable ++ blocks) fd buf len s k = (some written, s', k')) :
    AppendStep (s, k) [userBytes buf len k.machine] (s', k')
  | seek {s : BootState β} {k : Kernel} {i : Nat} (current : k.current = .task i) (fd offset : Int)
    (whence : Nat) :
    AppendStep (s, k) [] (s, k.modifyTask (.task i) fun task =>
      (seekCurrentFile (bootTable ++ blocks) fd offset whence s task).2)
  | read {s : BootState β} {k : Kernel} (fd buffer len : Nat) (ring : InputRing) :
    AppendStep (s, k) [] (s, (syscallRead (bootTable ++ blocks) s fd buffer len ring k).kernel)
  | dup2 {s : BootState β} {k : Kernel} {i : Nat} (current : k.current = .task i) (oldFd newFd : Int) :
    AppendStep (s, k) [] (s, k.modifyTask (.task i) fun task => (dup2CurrentFile oldFd newFd task).2)
  | close {s : BootState β} {k : Kernel} {i : Nat} (current : k.current = .task i) (fd : Int) :
    AppendStep (s, k) [] (s, k.modifyTask (.task i) fun task => (closeCurrentFile fd task).2)
  /-- A file is opened that exists and is not to be truncated. -/
  | reopen {s : BootState β} {k : Kernel} {i : Nat} (current : k.current = .task i) (path : Bytes) (flags : Nat)
    (exists_ : vfsFileExists (bootTable ++ blocks) path s) (kept : anyBit flags openTrunc = false) :
    AppendStep (s, k) []
      ((openCurrentFile (bootTable ++ blocks) (some path) flags s (k.taskAt (.task i))).2.1,
        k.modifyTask (.task i) fun task =>
          (openCurrentFile (bootTable ++ blocks) (some path) flags s task).2.2)
  /-- Another task goes on, or whatever else the scheduler does. -/
  | event {s : BootState β} {k k' : Kernel} (e : KernelEvent) (ran : e.run k = .ok k') :
    AppendStep (s, k) [] (s, k')
  /-- The programs compute. -/
  | compute {s : BootState β} {k : Kernel} (m : Machine) : AppendStep (s, k) [] (s, k.withMachine m)

/-- A run, with the buffers written in the order of the calls. -/
inductive AppendRun (x : BootState β × Kernel) : List Bytes → BootState β × Kernel → Prop where
  | start : AppendRun x [] x
  | step {y z : BootState β × Kernel} {before buffers : List Bytes} (run : AppendRun x before y)
    (step : AppendStep blocks p y buffers z) : AppendRun x (before ++ buffers) z

variable {blocks p}

/-- Opening a file that is there, without truncating it, leaves the filesystems alone. -/
theorem openCurrentFile_existing
    (exists_ : vfsFileExists (bootTable ++ blocks) path s) (kept : anyBit flags openTrunc = false) :
    (openCurrentFile (bootTable ++ blocks) (some path) flags s t).2.1 = s := by
  have untouched : ∀ type : TaskFileType, anyBit (if type = .vfs then flags else 0) openTrunc = false := by
    intro type
    split
    · exact kept
    · rfl
  simp only [openCurrentFile, exists_, untouched]
  rfl

theorem append_written (mounts : ∀ fs ∈ blocks, BlockMount fs)
    (ok : RamfsOk s.ramfs) (held : s.ramfs.files p = some content) (appends : AppendsTo p (asInt fd) k)
    (succeeds : syscallWrite (bootTable ++ blocks) fd buf len s k = (some written, s', k')) :
    RamfsOk s'.ramfs ∧ s'.ramfs.files p = some (content ++ userBytes buf len k.machine) := by
  obtain ⟨i, index, file, current, inside, opened, rfl, append⟩ := appends
  have on : OpenOn (asInt fd) s k i index file content := ⟨current, inside, opened, ok, held⟩
  rcases Nat.eq_zero_or_pos len with rfl | some_
  · have nothing : syscallWrite (bootTable ++ blocks) fd buf 0 s k = (some 0, s, k) := by
      simp [syscallWrite, on.notTty, usercopyValidateRange, chunks]
    cases nothing.symm.trans succeeds
    refine ⟨ok, ?_⟩
    rw [held, userBytes, List.range_zero, List.map_nil, List.append_nil]
  · cases valid : usercopyValidateRange buf len false k.machine with
    | false =>
      have refused : syscallWrite (bootTable ++ blocks) fd buf len s k = (none, s, k) := by
        simp [syscallWrite, on.notTty, valid]
      cases refused.symm.trans succeeds
    | true =>
      rcases Nat.eq_zero_or_pos buf with rfl | real
      · cases (syscallWrite_null some_ on).symm.trans succeeds
      · obtain ⟨t, ran, writing⟩ | ⟨round, t, ran, -⟩ := on.syscallWrite mounts valid real
        · cases ran.symm.trans succeeds
          obtain ⟨none, -⟩ | ⟨-, -, on', files⟩ := writing.progress
          · omega
          · refine ⟨on'.ok, ?_⟩
            rw [files, Function.update_self, List.take_of_length_le (by rw [length_userBytes])]
            rw [writeStart, if_pos append, overwrite_end]
        · cases ran.symm.trans succeeds

theorem AppendStep.appended (mounts : ∀ fs ∈ blocks, BlockMount fs) (step : AppendStep blocks p x buffers y)
    (ok : RamfsOk x.1.ramfs) (held : x.1.ramfs.files p = some content) :
    RamfsOk y.1.ramfs ∧ y.1.ramfs.files p = some (content ++ buffers.flatten) := by
  cases step with
  | write appends succeeds =>
    rw [List.flatten_singleton]
    exact append_written mounts ok held appends succeeds
  | reopen current path flags exists_ kept =>
    simp only [openCurrentFile_existing exists_ kept, List.flatten_nil, List.append_nil]
    exact ⟨ok, held⟩
  | seek | read | dup2 | close | event | compute =>
    rw [List.flatten_nil, List.append_nil]
    exact ⟨ok, held⟩

/-- Whatever the tasks do with their descriptors, the file ends up with all that was appended, in the order
    of the calls. -/
theorem appends_never_lost {x y : BootState β × Kernel} {buffers : List Bytes} {content : Bytes}
    (mounts : ∀ fs ∈ blocks, BlockMount fs) (run : AppendRun blocks p x buffers y)
    (ok : RamfsOk x.1.ramfs) (held : x.1.ramfs.files p = some content) :
    y.1.ramfs.files p = some (content ++ buffers.flatten) := by
  suffices RamfsOk y.1.ramfs ∧ y.1.ramfs.files p = some (content ++ buffers.flatten) from this.2
  induction run with
  | start =>
    rw [List.flatten_nil, List.append_nil]
    exact ⟨ok, held⟩
  | step run step ih =>
    obtain ⟨ok', held'⟩ := step.appended mounts ih.1 ih.2
    rw [List.flatten_append, ← List.append_assoc]
    exact ⟨ok', held'⟩

end Appends

/-- The running task has `/a` open for appending. -/
def appender : Kernel := holding (openedAt 0 true)

def firstAppend : Option Nat × BootState Unit × Kernel :=
  syscallWrite (bootTable ++ []) 3 0x10000 3 emptyFile appender

def rewound : Kernel :=
  firstAppend.2.2.modifyTask (.task 0) fun task =>
    (seekCurrentFile (bootTable ++ []) 3 0 seekSet firstAppend.2.1 task).2

def secondAppend : Option Nat × BootState Unit × Kernel :=
  syscallWrite (bootTable ++ []) 3 0x10000 3 firstAppend.2.1 rewound

theorem appends_succeed : firstAppend.1 = some 3 ∧ secondAppend.1 = some 3 ∧
    firstAppend.2.2.current = .task 0 ∧ rewound.current = .task 0 ∧ rewound.tasks.length = 1 ∧
    (currentVfsFile (asInt 3) (rewound.taskAt (.task 0))).map (fun found => (found.2.path, found.2.append))
      = some ([slash, 0x61], true) := by
  decide +kernel

/-- All six bytes are there. -/
theorem appends_never_lost_twice :
    secondAppend.2.1.ramfs.files [slash, 0x61]
      = some (userBytes 0x10000 3 appender.machine ++ userBytes 0x10000 3 rewound.machine) := by
  obtain ⟨first, second, current, current', one, opened⟩ := appends_succeed
  obtain ⟨⟨index, file⟩, found, same⟩ := Option.map_eq_some_iff.mp opened
  have start : AppendsTo [slash, 0x61] (asInt 3) appender :=
    ⟨0, 0, _, rfl, by decide, rfl, rfl, rfl⟩
  have again : AppendsTo [slash, 0x61] (asInt 3) rewound :=
    ⟨0, index, file, current', by omega, found, congrArg Prod.fst same, congrArg Prod.snd same⟩
  have wrote : AppendStep [] [slash, 0x61] (emptyFile, appender) _ (firstAppend.2.1, firstAppend.2.2) :=
    .write start (Prod.ext first rfl)
  have sought : AppendStep [] [slash, 0x61] (firstAppend.2.1, firstAppend.2.2) [] (firstAppend.2.1, rewound) :=
    .seek current 3 0 seekSet
  have wroteAgain : AppendStep [] [slash, 0x61] (firstAppend.2.1, rewound) _
      (secondAppend.2.1, secondAppend.2.2) := .write again (Prod.ext second rfl)
  have kept := appends_never_lost noBlockMounts
    (((AppendRun.start.step wrote).step sought).step wroteAgain) emptyFile_ok (holding_open 0 true).held
  simpa using kept

end TangPingOS
