import TangPingOS.Memory.PageAllocator
import TangPingOS.Process.Turns
import TangPingOS.Process.References

/-! # Descriptors along runs

Tasks call the descriptor functions in any order, and in between the kernel does what it
does. Throughout, the reference counts of every task are exact, and two descriptors that
`dup2` has joined share one open file until the task replaces one of them.
-/

namespace TangPingOS

open Lib Relation

/-- A call of the current task on its files. -/
inductive FileCall where
  | openFile (path : Option Bytes) (flags : Nat)
  | closeFile (fd : Int)
  | dup2 (oldFd newFd : Int)
  | readFile (fd : Int) (buffer : Bool) (len : Nat)
  | writeFile (fd : Int) (buffer : Option Bytes)
  | seekFile (fd offset : Int) (whence : Nat)

namespace FileCall

variable {σ : Type} (table : List (Filesystem σ))

def run (s : σ) (t : Task) : FileCall → σ × Task
  | .openFile path flags => (openCurrentFile table path flags s t).2
  | .closeFile fd => (s, (closeCurrentFile fd t).2)
  | .dup2 oldFd newFd => (s, (dup2CurrentFile oldFd newFd t).2)
  | .readFile fd buffer len => (s, (readCurrentFile table fd buffer len s t).2)
  | .writeFile fd buffer => (writeCurrentFile table fd buffer s t).2
  | .seekFile fd offset whence => (s, (seekCurrentFile table fd offset whence s t).2)

/-- The call makes a descriptor refer to something else, or to nothing. -/
def Replaces : FileCall → Int → Prop
  | .closeFile fd, a => fd = a
  | .dup2 oldFd newFd, a => newFd = a ∧ oldFd ≠ newFd
  | _, _ => False

theorem counted (c : FileCall) (ok : t.Counted fun _ => False) : (c.run table s t).2.Counted fun _ => False := by
  cases c with
  | openFile path flags => exact ok.openCurrentFile table s
  | closeFile fd => exact ok.closeCurrentFile
  | dup2 oldFd newFd => exact ok.dup2CurrentFile oldFd newFd
  | readFile fd buffer len => exact ok.readCurrentFile table s
  | writeFile fd buffer => exact ok.writeCurrentFile table s
  | seekFile fd offset whence => exact ok.seekCurrentFile table s

end FileCall

namespace Task

variable {t t' : Task} {a fd i index : Nat}

theorem refers_of_files (same : t'.files = t.files) : t'.Refers a i ↔ t.Refers a i := by
  simp only [Refers, Task.file, same]

theorem refers_refer (length : t.files.length = taskMaxFds) (low : fd < taskMaxFds) (other : a ≠ fd) :
    (t.refer fd index).Refers a i ↔ t.Refers a i := by
  have slot := refers_setFile (length ▸ low) { inUse := true, openFileIndex := index } a i
  rw [if_neg other] at slot
  exact slot

section Offsets

variable {σ : Type} (table : List (Filesystem σ)) (s : σ) (fd : Int)

theorem files_read : (readCurrentFile table fd buffer len s t).2.files = t.files := by
  unfold readCurrentFile
  split
  · rfl
  · split
    · rfl
    · split <;> rfl

theorem files_write : (writeCurrentFile table fd buffer s t).2.2.files = t.files := by
  unfold writeCurrentFile
  split
  · split
    · rfl
    · split <;> rfl
  · rfl

theorem files_seek : (seekCurrentFile table fd offset whence s t).2.files = t.files := by
  unfold seekCurrentFile
  split
  · rfl
  · split <;> rfl

end Offsets

theorem refers_openExisting {σ table} {s : σ} {path}
    {type append} (ok : t.Counted fun _ => False) (refers : t.Refers a i) :
    (openExisting table path type append s t).2.Refers a i := by
  unfold openExisting
  split
  · exact refers
  · rename_i index t₁ allocated
    have same := (ok.allocate allocated).2.2.1
    split
    · exact (refers_of_files (by exact same)).mpr refers
    · simp only
      split
      · exact (refers_of_files (by exact same)).mpr refers
      · rename_i fd free
        obtain ⟨low, unused⟩ := freeFd_some free
        have other : a ≠ fd := by
          rintro rfl
          exact not_refers unused ((refers_of_files (by exact same)).mpr refers)
        refine (refers_refer ?_ low other).mpr ((refers_of_files (by exact same)).mpr refers)
        exact (congrArg List.length same).trans ok.files

/-- A call leaves the descriptors alone that it does not replace. -/
theorem refers_call {σ table} {s : σ} {c : FileCall}
    (ok : t.Counted fun _ => False) (spares : ¬c.Replaces a) (refers : t.Refers a i) :
    (c.run table s t).2.Refers a i := by
  cases c with
  | openFile path flags =>
    obtain same | ⟨name, type, append, s', opened⟩ := openCurrentFile_cases table path flags s t
    · show (openCurrentFile table path flags s t).2.2.Refers a i
      rw [same]
      exact refers
    · show (openCurrentFile table path flags s t).2.2.Refers a i
      rw [opened]
      exact refers_openExisting ok refers
  | closeFile fd =>
    show (closeCurrentFile fd t).2.Refers a i
    unfold closeCurrentFile
    split
    · exact refers
    · rename_i found
      obtain ⟨valid, -⟩ := Counted.currentOpenFileForFd_some found
      have other : a ≠ fd.toNat := by
        intro same
        apply spares
        simp only [fdIsValid, Bool.and_eq_true, decide_eq_true_eq] at valid
        show fd = a
        omega
      exact (Counted.refers_closeFdSlot ok.files (Counted.toNat_lt valid) other).mpr refers
  | dup2 oldFd newFd =>
    show (dup2CurrentFile oldFd newFd t).2.Refers a i
    obtain ⟨same, -⟩ | ⟨index, t₁, valid, apart, source, result⟩ :=
      dup2CurrentFile_cases oldFd newFd t
    · rw [same]
      exact refers
    · obtain ⟨same, inside, held, closed, -⟩ := ok.dup2Source valid apart source
      have low := Counted.toNat_lt valid.2
      have other : a ≠ newFd.toNat := by
        intro same
        refine spares ⟨?_, apart⟩
        have := valid.2
        simp only [fdIsValid, Bool.and_eq_true, decide_eq_true_eq] at this
        omega
      rw [result]
      refine (refers_refer closed.files low other).mpr ?_
      refine (Counted.refers_closeFdSlot (same ▸ ok.files) low other).mpr ?_
      exact (refers_of_files same).mpr refers
  | readFile fd buffer len => exact (refers_of_files (files_read table s fd)).mpr refers
  | writeFile fd buffer => exact (refers_of_files (files_write table s fd)).mpr refers
  | seekFile fd offset whence =>
    exact (refers_of_files (files_seek table s fd)).mpr refers

/-! ## Descriptors of one open file -/

/-- Both descriptors lead to the open file, and so to its one offset. -/
def SharesAt (t : Task) (a b : Int) (index : Nat) : Prop :=
  t.currentOpenFileForFd a = some index ∧ t.currentOpenFileForFd b = some index

theorem indexOf_of_current {fd} (found : t.currentOpenFileForFd fd = some index) :
    t.indexOf fd.toNat = some index := by
  unfold Task.currentOpenFileForFd at found
  split at found
  · cases found
  · exact (Option.filter_eq_some_iff.mp found).1

theorem currentOpenFileForFd_of_refers {fd held} (ok : t.Counted held)
    (valid : fdIsValid fd) (inside : index < taskMaxOpenFiles) (refers : t.Refers fd.toNat index) :
    t.currentOpenFileForFd fd = some index := by
  have low := Counted.toNat_lt valid
  have used := (ok.used index inside).mpr (.inl (fdCount_pos low refers))
  unfold Task.currentOpenFileForFd
  rw [if_neg (by simp [valid])]
  cases located : t.indexOf fd.toNat with
  | none => exact absurd refers (not_refers (ok.indexOf_none low located))
  | some index' =>
    have equal : index' = index := Int.ofNat.inj ((Counted.indexOf_some located).2.2.symm.trans refers.2)
    rw [equal, Option.filter_some, if_pos used]

/-- Closing one of two descriptors of an open file keeps the other, and all of the file but its
    count. -/
theorem closeCurrentFile_shared (ok : t.Counted fun _ => False) (other : x ≠ y) (shared : t.SharesAt x y index) :
    ∃ t', closeCurrentFile x t = (0, t') ∧ t'.currentOpenFileForFd y = some index ∧
      t'.openFile index = { t.openFile index with refCount := (t.openFile index).refCount - 1 } := by
  obtain ⟨validX, inside, refersX, usedX⟩ := Counted.currentOpenFileForFd_some shared.1
  obtain ⟨validY, -, refersY, -⟩ := Counted.currentOpenFileForFd_some shared.2
  have low := Counted.toNat_lt validX
  have apart : y.toNat ≠ x.toNat := by
    simp only [fdIsValid, Bool.and_eq_true, decide_eq_true_eq] at validX validY
    omega
  have closed := ok.close low fun _ impossible => impossible.elim
  have still := (Counted.refers_closeFdSlot ok.files low apart).mpr refersY
  have kept := currentOpenFileForFd_of_refers closed validY inside still
  refine ⟨t.closeFdSlot x.toNat, by simp [closeCurrentFile, shared.1], kept, ?_⟩
  have positive : 0 < (t.openFile index).refCount := by
    rw [ok.counted index inside]
    exact fdCount_pos low refersX
  have dropped : (t.closeFdSlot x.toNat).openFile index = (t.openFile index).dropped := by
    unfold Task.closeFdSlot
    simp only [indexOf_of_current shared.1, Task.dropReference, usedX, positive, decide_true,
      Bool.and_self, if_true, openFile_setFile]
    rw [openFile_setOpenFile (ok.openFiles ▸ inside), if_pos rfl]
  -- The other descriptor still refers to the file, so this was not the last reference.
  have used := (Counted.currentOpenFileForFd_some kept).2.2.2
  rw [dropped] at used ⊢
  unfold TaskOpenFile.dropped at used ⊢
  split
  · rename_i last
    simp [last] at used
  · rfl

theorem openFile_closeFdSlot (ok : t.Counted held) (other : ¬t.Refers fd i) :
    (t.closeFdSlot fd).openFile i = t.openFile i := by
  unfold Task.closeFdSlot
  split
  · rfl
  · rename_i index located
    obtain ⟨inside, refers⟩ := Counted.indexOf_some located
    unfold Task.dropReference
    simp only
    split
    · rw [openFile_setFile, openFile_setOpenFile (ok.openFiles ▸ inside), if_neg]
      rintro rfl
      exact other refers
    · rfl

theorem refer_refers (length : t.files.length = taskMaxFds) (low : fd < taskMaxFds) (index : Nat) :
    (t.refer fd index).Refers fd index := by
  have slot := refers_setFile (length ▸ low) { inUse := true, openFileIndex := index } fd index
  exact slot.mpr (by rw [if_pos rfl]; exact ⟨rfl, rfl⟩)

/-- The old descriptor is a standard one that is not in use, and both are the terminal. -/
def BothTerminal (t : Task) (oldFd newFd : Int) : Prop :=
  (t.file oldFd.toNat).inUse = false ∧ currentFdIsTty oldFd t ∧ currentFdIsTty newFd t

theorem not_inUse_of_current_none {fd held} (ok : t.Counted held)
    (valid : fdIsValid fd) (none : t.currentOpenFileForFd fd = none) :
    (t.file fd.toNat).inUse = false := by
  by_contra used
  obtain ⟨i, inside, refers⟩ := ok.refers _ (Counted.toNat_lt valid) (by simpa using used)
  cases none.symm.trans (currentOpenFileForFd_of_refers ok valid inside refers)

theorem file_refer_other (length : t.files.length = taskMaxFds) (low : fd < taskMaxFds) (other : a ≠ fd) :
    (t.refer fd index).file a = t.file a := by
  have slot := file_setFile (length ▸ low) { inUse := true, openFileIndex := index } a
  rw [if_neg other] at slot
  exact slot

theorem type_refer (inside : index < t.openFiles.length) :
    ((t.refer fd index).openFile index).type = (t.openFile index).type := by
  unfold Task.refer
  rw [openFile_setOpenFile (by exact inside), if_pos rfl]
  rfl

/-- The open file made for a standard descriptor is one for the terminal. -/
theorem bothTerminal_refer (ok : t.Counted fun _ => False)
    (valid : fdIsValid oldFd ∧ fdIsValid newFd) (apart : oldFd.toNat ≠ newFd.toNat)
    (implicit : t.currentOpenFileForFd oldFd = none) (standard : oldFd ≤ 2)
    (allocated : t.allocateOpenFile .tty path false = some (index, t'))
    (leads : ((t'.closeFdSlot newFd.toNat).refer newFd.toNat index).currentOpenFileForFd newFd
      = some index) :
    ((t'.closeFdSlot newFd.toNat).refer newFd.toNat index).BothTerminal oldFd newFd := by
  obtain ⟨inside, none, same, ok'⟩ := ok.allocate allocated
  have low := Counted.toNat_lt valid.2
  have unreferred : ∀ i, i = index → ¬t'.Refers newFd.toNat i := by
    rintro i rfl refers
    have := fdCount_pos low refers
    omega
  have closed := ok'.close low unreferred
  have unused : (((t'.closeFdSlot newFd.toNat).refer newFd.toNat index).file oldFd.toNat).inUse = false := by
    rw [file_refer_other closed.files low apart, Counted.file_closeFdSlot ok'.files low, if_neg apart]
    have equal : t'.file oldFd.toNat = t.file oldFd.toNat := by simp only [Task.file, same]
    rw [equal]
    exact not_inUse_of_current_none ok valid.1 implicit
  have made : (t'.openFile index).type = .tty := by
    obtain ⟨i, -, written⟩ := Option.map_eq_some_iff.mp allocated
    cases written
    rw [openFile_setOpenFile (ok.openFiles ▸ inside), if_pos rfl]
  have terminal : (((t'.closeFdSlot newFd.toNat).refer newFd.toNat index).openFile index).type = .tty := by
    rw [type_refer (closed.openFiles ▸ inside), openFile_closeFdSlot ok' (unreferred index rfl), made]
  refine ⟨unused, ?_, ?_⟩
  · simp [currentFdIsTty, valid.1, unused, standard]
  · simp [currentFdIsTty, valid.2, leads, terminal]

theorem dup2CurrentFile_joins (ok : t.Counted fun _ => False)
    (other : oldFd ≠ newFd) (done : (dup2CurrentFile oldFd newFd t).1 ≠ -1) :
    (∃ index, (dup2CurrentFile oldFd newFd t).2.SharesAt oldFd newFd index) ∨
      (dup2CurrentFile oldFd newFd t).2.BothTerminal oldFd newFd := by
  have ok' := ok.dup2CurrentFile oldFd newFd
  obtain ⟨-, failed⟩ | ⟨index, t₁, valid, -, source, result⟩ := dup2CurrentFile_cases oldFd newFd t
  · exact absurd (failed other) done
  · rw [result] at ok' ⊢
    obtain ⟨same, inside, held, closed, -, -⟩ := ok.dup2Source valid other source
    have low := Counted.toNat_lt valid.2
    have newRefers := refer_refers closed.files low index
    have newLeads := currentOpenFileForFd_of_refers ok' valid.2 inside newRefers
    have apart : oldFd.toNat ≠ newFd.toNat := by
      simp only [fdIsValid, Bool.and_eq_true, decide_eq_true_eq] at valid
      omega
    unfold dup2Source at source
    split at source
    · rename_i found
      cases source
      have oldRefers := (Counted.currentOpenFileForFd_some found).2.2.1
      have still : ((t.closeFdSlot newFd.toNat).refer newFd.toNat index).Refers oldFd.toNat index :=
        (refers_refer closed.files low apart).mpr ((Counted.refers_closeFdSlot ok.files low apart).mpr oldRefers)
      exact .inl ⟨index, currentOpenFileForFd_of_refers ok' valid.1 inside still, newLeads⟩
    · rename_i implicit
      split at source
      · rename_i standard
        exact .inr (bothTerminal_refer ok valid apart implicit standard source newLeads)
      · cases source

end Task

namespace Task

def SameTables (t t' : Task) : Prop := t'.files = t.files ∧ t'.openFiles = t.openFiles

/-- The tables that `release_task_resources` leaves. -/
def Cleared (t : Task) : Prop :=
  t.files = List.replicate taskMaxFds {} ∧ t.openFiles = List.replicate taskMaxOpenFiles {}

variable {t t' t'' : Task} {held : Nat → Prop}

theorem SameTables.refl (t : Task) : SameTables t t := ⟨rfl, rfl⟩

theorem SameTables.trans (first : SameTables t t') (second : SameTables t' t'') : SameTables t t'' :=
  ⟨second.1.trans first.1, second.2.trans first.2⟩

theorem Counted.sameTables (ok : t.Counted held) (same : SameTables t t') : t'.Counted held := by
  have moved : ({ t' with files := t.files, openFiles := t.openFiles } : Task).Counted held :=
    ⟨ok.files, ok.openFiles, ok.counted, ok.used, ok.refers⟩
  obtain ⟨files, openFiles⟩ := same
  rw [← files, ← openFiles] at moved
  exact moved

theorem counted_of_replicate (files : t.files = List.replicate taskMaxFds { inUse := false, openFileIndex := x })
    (openFiles : t.openFiles = List.replicate taskMaxOpenFiles {}) : t.Counted fun _ => False := by
  have unused : ∀ fd, (t.file fd).inUse = false := by
    intro fd
    simp only [Task.file, files, List.getD, List.getElem?_replicate]
    split <;> rfl
  have empty : ∀ i, t.openFile i = {} := by
    intro i
    simp only [Task.openFile, openFiles, List.getD, List.getElem?_replicate]
    split <;> rfl
  have none : ∀ i, t.fdCount i = 0 := by
    intro i
    apply Finset.card_eq_zero.mpr
    exact Finset.filter_false_of_mem fun fd _ => not_refers (unused fd)
  refine ⟨by simp [files], by simp [openFiles], ?_, ?_, ?_⟩
  · intro i _
    rw [empty, none]
  · intro i _
    rw [empty, none]
    simp
  · intro fd _ used
    exact absurd used (by simp [unused fd])

theorem SameTables.counted (same : SameTables {} t) : t.Counted fun _ => False :=
  counted_of_replicate same.1 same.2

theorem Cleared.counted (cleared : t.Cleared) : t.Counted fun _ => False :=
  counted_of_replicate cleared.1 cleared.2

end Task

/-- What may become of the tables: those of a task that exits are cleared, and new tasks are created;
    all others stay. -/
structure TablesKept (enters : TaskState → Prop) (k k' : Kernel) : Prop where
  length : k.tasks.length ≤ k'.tasks.length
  kept : ∀ p < k.tasks.length, (k.taskAt (.task p)).SameTables (k'.taskAt (.task p)) ∨
    enters .stopped ∧ k.current = .task p ∧ (k'.taskAt (.task p)).Cleared
  new : ∀ p, k.tasks.length ≤ p → p < k'.tasks.length → Task.SameTables {} (k'.taskAt (.task p))

theorem TablesKept.of_same (length : k'.tasks.length = k.tasks.length)
    (same : ∀ p < k.tasks.length, (k.taskAt (.task p)).SameTables (k'.taskAt (.task p))) :
    TablesKept enters k k' := by
  refine ⟨length.ge, fun p low => .inl (same p low), ?_⟩
  intro p high low
  omega

theorem Kernel.Moved.tables {frames : Nat → Prop} {enters : TaskState → Prop} {k k' : Kernel}
    (moved : k.Moved frames enters k') : TablesKept enters k k' where
  length := moved.length
  kept p low := (moved.tasks p low).tables
  new p high low := ⟨(moved.new p high low).files, (moved.new p high low).openFiles⟩

theorem TablesKept.trans (never : ¬enters .stopped)
    (first : TablesKept enters k k₁) (second : TablesKept enters k₁ k') : TablesKept enters k k' := by
  have later : ∀ p < k₁.tasks.length, (k₁.taskAt (.task p)).SameTables (k'.taskAt (.task p)) := by
    intro p low
    obtain same | ⟨enter, -⟩ := second.kept p low
    · exact same
    · exact absurd enter never
  refine ⟨first.length.trans second.length, ?_, ?_⟩
  · intro p low
    have low₁ := low.trans_le first.length
    obtain same | ⟨enter, -⟩ := first.kept p low
    · exact .inl (same.trans (later p low₁))
    · exact absurd enter never
  · intro p high low
    by_cases low₁ : p < k₁.tasks.length
    · exact (first.new p high low₁).trans (later p low₁)
    · exact second.new p (Nat.le_of_not_lt low₁) low

theorem KernelEvent.tables {e : KernelEvent} (inside : k.Inside)
    (run : e.run k = .ok k') : TablesKept e.Enters k k' := by
  have quiet : ∀ enters, ¬enters .stopped → Moves (fun _ => True) enters k k' → TablesKept enters k k' := by
    intro enters never moves
    refine (moves.keep_moved (P := TablesKept enters k) ?_ inside (.of_same rfl fun p _ => .refl _)).2
    intro k₁ k₂ moved kept
    exact kept.trans never moved.tables
  cases e.effect e.frames_true run with
  | still n still =>
    have none := quiet (fun _ => False) id still.moves
    exact ⟨none.length, fun p low => (none.kept p low).imp_right fun impossible => impossible.1.elim, none.new⟩
  | leave i left move => exact (move.moved inside).tables
  | tick frame next same valid ran => exact quiet _ (by rw [same]; exact id) (e.moves e.frames_true run)

/-- What can happen: a call of the current task, an event of the kernel, or whatever else changes the
    filesystems. -/
inductive FileEvent (σ : Type) where
  | call (c : FileCall)
  | kernel (e : KernelEvent)
  | mounted (change : σ → σ)

section Runs

variable {σ : Type} (table : List (Filesystem σ))

/-- A call of the current task. It is refused if there is none, or the boot task is. -/
def Kernel.fileCall (c : FileCall) (s : σ) (k : Kernel) : σ × Kernel :=
  match k.current with
  | .task i =>
    let (s, t) := c.run table s (k.taskAt (.task i))
    (s, k.modifyTask (.task i) fun _ => t)
  | _ => (s, k)

def FileEvent.run (x : σ × Kernel) : FileEvent σ → Except Panic (σ × Kernel)
  | .call c => .ok (x.2.fileCall table c x.1)
  | .kernel e => (e.run x.2).map fun k => (x.1, k)
  | .mounted change => .ok (change x.1, x.2)

def FileRun (allowed : Kernel → FileEvent σ → Prop) : σ × Kernel → σ × Kernel → Prop :=
  ReflTransGen fun x y => ∃ e, allowed x.2 e ∧ e.run table x = .ok y

/-- The event does not replace the descriptors of the task, nor end it. -/
def Spares (p : Nat) (a b : Int) (k : Kernel) : FileEvent σ → Prop
  | .call c => k.current = .task p → ¬c.Replaces a ∧ ¬c.Replaces b
  | .kernel e => k.current = .task p → ¬e.Enters .stopped
  | .mounted _ => True

/-- The counts of every task are right. -/
structure CountsOk (k : Kernel) : Prop where
  inside : k.Inside
  counted : ∀ p < k.tasks.length, (k.taskAt (.task p)).Counted fun _ => False

variable {table} {k k' : Kernel} {s s' : σ}

theorem CountsOk.event {e : KernelEvent} (ok : CountsOk k) (run : e.run k = .ok k') : CountsOk k' := by
  have kept := e.tables ok.inside run
  refine ⟨e.inside run ok.inside, ?_⟩
  intro p low
  by_cases old : p < k.tasks.length
  · obtain same | ⟨-, -, cleared⟩ := kept.kept p old
    · exact (ok.counted p old).sameTables same
    · exact cleared.counted
  · exact (kept.new p (Nat.le_of_not_lt old) low).counted

theorem CountsOk.call (ok : CountsOk k) : CountsOk (k.fileCall table c s).2 := by
  unfold Kernel.fileCall
  split
  · rename_i i current
    refine ⟨?_, ?_⟩
    · intro j here
      rw [Kernel.length_modifyTask]
      exact ok.inside j (Kernel.current_modifyTask.symm.trans here)
    · intro p low
      rw [Kernel.length_modifyTask] at low
      rw [Kernel.taskAt_modifyTask low]
      split
      · rename_i here
        obtain rfl : i = p := by simpa using here
        exact c.counted table (ok.counted i low)
      · exact ok.counted p low
  · exact ok

theorem CountsOk.step {e : FileEvent σ} (ok : CountsOk x.2) (run : e.run table x = .ok y) : CountsOk y.2 := by
  cases e with
  | call c =>
    cases run
    exact ok.call
  | kernel e =>
    obtain ⟨k₁, ran, rfl⟩ := map_eq_ok run
    exact ok.event ran
  | mounted change =>
    cases run
    exact ok

theorem CountsOk.run (ok : CountsOk x.2) (run : FileRun table allowed x y) : CountsOk y.2 := by
  induction run with
  | refl => exact ok
  | tail _ last ih =>
    obtain ⟨e, -, ran⟩ := last
    exact ih.step ran

def Kernel.Share (k : Kernel) (p : Nat) (a b : Int) : Prop :=
  p < k.tasks.length ∧ ∃ index, (k.taskAt (.task p)).SharesAt a b index

theorem Task.SharesAt.sameTables {t t' : Task} (shared : t.SharesAt a b index)
    (same : t.SameTables t') : t'.SharesAt a b index := by
  have moved : ({ t' with files := t.files, openFiles := t.openFiles } : Task).SharesAt a b index := shared
  obtain ⟨files, openFiles⟩ := same
  rw [← files, ← openFiles] at moved
  exact moved

theorem Task.SharesAt.call {c : FileCall} (shared : t.SharesAt a b index)
    (ok : t.Counted fun _ => False) (spares : ¬c.Replaces a ∧ ¬c.Replaces b) :
    (c.run table s t).2.SharesAt a b index := by
  have kept : ∀ fd : Int, ¬c.Replaces fd → t.currentOpenFileForFd fd = some index →
      (c.run table s t).2.currentOpenFileForFd fd = some index := by
    intro fd spared found
    obtain ⟨valid, inside, refers, -⟩ := Task.Counted.currentOpenFileForFd_some found
    have same : (fd.toNat : Int) = fd := by
      simp only [fdIsValid, Bool.and_eq_true, decide_eq_true_eq] at valid
      omega
    exact Task.currentOpenFileForFd_of_refers (c.counted table ok) valid inside
      (Task.refers_call ok (same.symm ▸ spared) refers)
  exact ⟨kept a spares.1 shared.1, kept b spares.2 shared.2⟩

theorem Kernel.Share.call (ok : CountsOk k) (shared : k.Share p a b)
    (spares : k.current = .task p → ¬c.Replaces a ∧ ¬c.Replaces b) :
    (k.fileCall table c s).2.Share p a b := by
  obtain ⟨low, index, shared⟩ := shared
  unfold Kernel.fileCall
  split
  · rename_i i current
    refine ⟨by rw [Kernel.length_modifyTask]; exact low, index, ?_⟩
    rw [Kernel.taskAt_modifyTask low]
    split
    · rename_i here
      obtain rfl : i = p := by simpa using here
      exact shared.call (ok.counted i low) (spares current)
    · exact shared
  · exact ⟨low, index, shared⟩

theorem Kernel.Share.step (ok : CountsOk x.2)
    (shared : x.2.Share p a b) (spares : Spares p a b x.2 e) (run : e.run table x = .ok y) :
    y.2.Share p a b := by
  cases e with
  | call c =>
    cases run
    exact shared.call ok spares
  | kernel e =>
    obtain ⟨k₁, ran, rfl⟩ := map_eq_ok run
    obtain ⟨low, index, shared⟩ := shared
    have kept := e.tables ok.inside ran
    refine ⟨low.trans_le kept.length, index, ?_⟩
    obtain same | ⟨enter, current, -⟩ := kept.kept p low
    · exact shared.sameTables same
    · exact absurd enter (spares current)
  | mounted change =>
    cases run
    exact shared

theorem Kernel.Share.run (ok : CountsOk x.2)
    (shared : x.2.Share p a b) (run : FileRun table (Spares p a b) x y) : y.2.Share p a b := by
  induction run with
  | refl => exact shared
  | tail earlier last ih =>
    obtain ⟨e, spares, ran⟩ := last
    exact ih.step (ok.run earlier) spares ran

/-- The descriptors of a task, wherever a run has got. -/
structure DescriptorsOk (table : List (Filesystem σ)) (s : σ) (k : Kernel) (p : Nat) : Prop where
  /-- A count is the number of descriptors that refer to the open file. -/
  counted : ∀ i < taskMaxOpenFiles,
    ((k.taskAt (.task p)).openFile i).refCount = (k.taskAt (.task p)).fdCount i
  /-- An open file is in use just while that is positive. -/
  used : ∀ i < taskMaxOpenFiles,
    ((k.taskAt (.task p)).openFile i).inUse ↔ 0 < (k.taskAt (.task p)).fdCount i
  /-- A descriptor in use refers to an open file in use. -/
  refers : ∀ fd < taskMaxFds, ((k.taskAt (.task p)).file fd).inUse →
    ∃ i < taskMaxOpenFiles, (k.taskAt (.task p)).Refers fd i ∧
      ((k.taskAt (.task p)).openFile i).inUse
  /-- `dup2` makes two descriptors share an open file, unless it duplicates the terminal, which has no
      offset, from a standard descriptor that is not in use. -/
  joined : ∀ oldFd newFd, oldFd ≠ newFd →
    (dup2CurrentFile oldFd newFd (k.taskAt (.task p))).1 ≠ -1 →
    (∃ index, (dup2CurrentFile oldFd newFd (k.taskAt (.task p))).2.SharesAt oldFd newFd index) ∨
      (dup2CurrentFile oldFd newFd (k.taskAt (.task p))).2.BothTerminal oldFd newFd
  /-- They share it, and its offset, until the task replaces one of them or ends. -/
  shared : ∀ a b y, k.Share p a b → FileRun table (Spares p a b) (s, k) y → y.2.Share p a b
  /-- When one is closed, the other leads to the same open file, unchanged but for the count. -/
  closed : ∀ a b index, a ≠ b → (k.taskAt (.task p)).SharesAt a b index →
    ∃ t', closeCurrentFile a (k.taskAt (.task p)) = (0, t') ∧ t'.currentOpenFileForFd b = some index ∧
      t'.openFile index = { (k.taskAt (.task p)).openFile index with
        refCount := ((k.taskAt (.task p)).openFile index).refCount - 1 }

/-- Reference counts are exact in every task of every run that starts with new tasks. -/
theorem descriptors_exact {y : σ × Kernel} {p : Nat} (inside : k.Inside)
    (new : ∀ i < k.tasks.length, Task.SameTables {} (k.taskAt (.task i)))
    (run : FileRun table (fun _ _ => True) (s, k) y) (low : p < y.2.tasks.length) :
    DescriptorsOk table y.1 y.2 p := by
  have start : CountsOk k := ⟨inside, fun i low => (new i low).counted⟩
  have ok : CountsOk y.2 := start.run run
  have counts := ok.counted p low
  have used : ∀ i < taskMaxOpenFiles,
      ((y.2.taskAt (.task p)).openFile i).inUse ↔ 0 < (y.2.taskAt (.task p)).fdCount i := by
    intro i inside
    rw [counts.used i inside, or_false]
  refine ⟨counts.counted, used, ?_, ?_, ?_, ?_⟩
  · intro fd low inUse
    obtain ⟨i, inside, refers⟩ := counts.refers fd low inUse
    exact ⟨i, inside, refers, (used i inside).mpr (Task.fdCount_pos low refers)⟩
  · intro oldFd newFd other done
    exact Task.dup2CurrentFile_joins counts other done
  · intro a b z share spared
    exact share.run ok spared
  · intro a b index other share
    exact Task.closeCurrentFile_shared counts other share

end Runs

def fourBytes : Filesystem Unit where
  path := [0x2f]
  read _ offset len _ := some (([1, 2, 3, 4] : Bytes).drop offset |>.take len)
  write := none
  size := some fun _ _ => some 4
  truncate := none
  unlink := none

def oneTask : Kernel where
  machine := blankMachine
  tasks := [{ pid := 1, frame := 4096 }]
  bootTask := { frame := 8192 }
  current := .task 0
  tickCount := 1
  nextPid := 2
  ready := true

/-- The task opens `/a` as descriptor 3, duplicates it to 5 and reads two bytes through it. -/
theorem descriptors_exact_dup2 :
    ∃ y, FileRun [fourBytes] (fun _ _ => True) ((), oneTask) y ∧ DescriptorsOk [fourBytes] y.1 y.2 0 ∧
      (y.2.taskAt (.task 0)).SharesAt 3 5 0 ∧ ((y.2.taskAt (.task 0)).openFile 0).offset = 2 := by
  have run : FileRun [fourBytes] (fun _ _ => True) ((), oneTask) _ :=
    ((ReflTransGen.single ⟨.call (.openFile (some [0x2f, 0x61]) 0), trivial, rfl⟩).tail
      ⟨.call (.dup2 3 5), trivial, rfl⟩).tail ⟨.call (.readFile 5 true 2), trivial, rfl⟩
  refine ⟨_, run, descriptors_exact ?_ ?_ run (by decide), ⟨by decide, by decide⟩, by decide⟩
  · intro i here
    cases here
    decide
  · intro i low
    cases i with
    | zero => exact ⟨rfl, rfl⟩
    | succ i => simp [oneTask] at low

end TangPingOS
