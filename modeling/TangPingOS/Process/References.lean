import TangPingOS.Process.Files

/-! # Reference counts of open files

Every open file counts the descriptors that refer to it, and is in use just as long as
there are any. Each of the descriptor functions keeps this, whether it succeeds or fails.
-/

namespace TangPingOS

open Lib

namespace Task

def Refers (t : Task) (fd index : Nat) : Prop :=
  (t.file fd).inUse ∧ (t.file fd).openFileIndex = index

instance (t : Task) (fd index : Nat) : Decidable (t.Refers fd index) :=
  inferInstanceAs (Decidable (_ ∧ _))

def fdCount (t : Task) (index : Nat) : Nat :=
  ((Finset.range taskMaxFds).filter fun fd => t.Refers fd index).card

section Slots

variable {t : Task} {fd index : Nat} {f : TaskFile} {o : TaskOpenFile}

theorem file_setFile (inside : fd < t.files.length) (f : TaskFile) (x : Nat) :
    (t.setFile fd f).file x = if x = fd then f else t.file x := by
  unfold file setFile
  by_cases same : x = fd
  · subst same
    simp [inside]
  · simp [same, List.getElem?_set_ne (Ne.symm same)]

@[simp] theorem file_setOpenFile : (t.setOpenFile index o).file fd = t.file fd := rfl

@[simp] theorem openFile_setFile : (t.setFile fd f).openFile index = t.openFile index := rfl

theorem openFile_setOpenFile (inside : index < t.openFiles.length) (o : TaskOpenFile) (i : Nat) :
    (t.setOpenFile index o).openFile i = if i = index then o else t.openFile i := by
  unfold openFile setOpenFile
  by_cases same : i = index
  · subst same
    simp [inside]
  · simp [same, List.getElem?_set_ne (Ne.symm same)]

@[simp] theorem fdCount_setOpenFile : (t.setOpenFile index o).fdCount i = t.fdCount i := rfl

theorem fdCount_le : t.fdCount index ≤ taskMaxFds :=
  (Finset.card_filter_le _ _).trans_eq (Finset.card_range _)

theorem fdCount_pos (inside : fd < taskMaxFds) (refers : t.Refers fd index) : 0 < t.fdCount index :=
  Finset.card_pos.mpr ⟨fd, Finset.mem_filter.mpr ⟨Finset.mem_range.mpr inside, refers⟩⟩

theorem refers_setFile (inside : fd < t.files.length) (f : TaskFile) (x i : Nat) :
    (t.setFile fd f).Refers x i ↔
      if x = fd then f.inUse ∧ f.openFileIndex = i else t.Refers x i := by
  unfold Refers
  rw [file_setFile inside]
  split <;> rfl

theorem not_refers (free : (t.file fd).inUse = false) : ¬t.Refers fd index := by
  rintro ⟨used, -⟩
  exact Bool.false_ne_true (free.symm.trans used)

theorem fdCount_setFile_refer (inside : fd < taskMaxFds) (length : t.files.length = taskMaxFds)
    (free : (t.file fd).inUse = false) (index i : Nat) :
    (t.setFile fd { inUse := true, openFileIndex := index }).fdCount i
      = t.fdCount i + if i = index then 1 else 0 := by
  have lookup := fun x => refers_setFile (length ▸ inside) { inUse := true, openFileIndex := index } x i
  unfold fdCount
  split
  · rename_i same
    have grown : ((Finset.range taskMaxFds).filter fun x =>
        (t.setFile fd { inUse := true, openFileIndex := index }).Refers x i)
        = insert fd ((Finset.range taskMaxFds).filter fun x => t.Refers x i) := by
      ext x
      simp only [lookup]
      by_cases here : x = fd
      · simp [here, inside, same]
      · simp [here]
    rw [grown]
    apply Finset.card_insert_of_notMem
    intro present
    exact not_refers free (Finset.mem_filter.mp present).2
  · rename_i other
    have equal : ((Finset.range taskMaxFds).filter fun x =>
        (t.setFile fd { inUse := true, openFileIndex := index }).Refers x i)
        = (Finset.range taskMaxFds).filter fun x => t.Refers x i := by
      ext x
      simp only [lookup]
      by_cases here : x = fd
      · subst here
        simp [not_refers free, Ne.symm other]
      · simp [here]
    rw [equal, Nat.add_zero]

theorem fdCount_setFile_clear (inside : fd < taskMaxFds) (length : t.files.length = taskMaxFds) (index : Nat) :
    (t.setFile fd {}).fdCount index = t.fdCount index - if t.Refers fd index then 1 else 0 := by
  have lookup := fun x => refers_setFile (length ▸ inside) {} x index
  have shrunk : ((Finset.range taskMaxFds).filter fun x => (t.setFile fd {}).Refers x index)
      = ((Finset.range taskMaxFds).filter fun x => t.Refers x index).erase fd := by
    ext x
    simp only [lookup]
    by_cases here : x = fd
    · simp [here]
    · simp [here]
  unfold fdCount
  rw [shrunk]
  split
  · rename_i refers
    rw [Finset.card_erase_of_mem (Finset.mem_filter.mpr ⟨Finset.mem_range.mpr inside, refers⟩)]
  · rename_i other
    rw [Finset.erase_eq_of_notMem (a := fd) fun present => other (Finset.mem_filter.mp present).2,
      Nat.sub_zero]

end Slots

theorem freeFd_some {t : Task} (free : t.freeFd = some fd) : fd < taskMaxFds ∧ (t.file fd).inUse = false := by
  have low := List.mem_range'_1.mp (List.mem_of_find?_eq_some free)
  refine ⟨?_, by simpa using List.find?_some free⟩
  omega

/-- Opening either gets as far as the open file or leaves the task as it is. -/
theorem openCurrentFile_cases (table : List (Filesystem σ)) (path : Option Bytes) (flags : Nat) (s : σ) (t : Task) :
    (openCurrentFile table path flags s t).2.2 = t ∨
      ∃ name type append s', (openCurrentFile table path flags s t).2.2
        = (openExisting table name type append s' t).2 := by
  unfold openCurrentFile
  split
  · exact .inl rfl
  · rename_i path
    simp only
    generalize (if ttyIsPath path then TaskFileType.tty else TaskFileType.vfs) = type
    generalize (if type = TaskFileType.vfs then flags else 0) = flags
    split
    · split
      · exact .inl rfl
      · split
        · exact .inl rfl
        · exact .inr ⟨_, _, _, _, rfl⟩
    · split
      · split
        · exact .inl rfl
        · exact .inr ⟨_, _, _, _, rfl⟩
      · exact .inr ⟨_, _, _, _, rfl⟩

/-- `dup2` either duplicates a source or leaves the task as it is. -/
theorem dup2CurrentFile_cases (oldFd newFd : Int) (t : Task) :
    ((dup2CurrentFile oldFd newFd t).2 = t ∧
      (oldFd ≠ newFd → (dup2CurrentFile oldFd newFd t).1 = -1)) ∨
    ∃ index t₁, (fdIsValid oldFd ∧ fdIsValid newFd) ∧ oldFd ≠ newFd ∧
      dup2Source oldFd t = some (index, t₁) ∧ dup2CurrentFile oldFd newFd t
        = (newFd, (t₁.closeFdSlot newFd.toNat).refer newFd.toNat index) := by
  unfold dup2CurrentFile
  split
  · exact .inl ⟨rfl, fun _ => rfl⟩
  · rename_i valid
    simp only [Bool.or_eq_true, Bool.not_eq_true', not_or, Bool.not_eq_false] at valid
    split
    · rename_i same
      exact .inl ⟨rfl, fun other => absurd same other⟩
    · rename_i other
      split
      · exact .inl ⟨rfl, fun _ => rfl⟩
      · rename_i source
        exact .inr ⟨_, _, valid, other, source, rfl⟩

/-- The counts are right, and just the open files with references are in use; so are those in `held`,
    which a call has allocated and no slot refers to yet. -/
structure Counted (t : Task) (held : Nat → Prop) : Prop where
  files : t.files.length = taskMaxFds
  openFiles : t.openFiles.length = taskMaxOpenFiles
  counted : ∀ i < taskMaxOpenFiles, (t.openFile i).refCount = t.fdCount i
  used : ∀ i < taskMaxOpenFiles, (t.openFile i).inUse ↔ 0 < t.fdCount i ∨ held i
  refers : ∀ fd < taskMaxFds, (t.file fd).inUse → ∃ i < taskMaxOpenFiles, t.Refers fd i

namespace Counted

variable {t : Task} {held : Nat → Prop} {fd index : Nat}

theorem setOpenFile (ok : Counted t held) (inside : index < taskMaxOpenFiles)
    (used : o.inUse = (t.openFile index).inUse) (count : o.refCount = (t.openFile index).refCount) :
    Counted (t.setOpenFile index o) held := by
  have lookup := openFile_setOpenFile (ok.openFiles ▸ inside) o
  refine ⟨ok.files, by simp [Task.setOpenFile, ok.openFiles], ?_, ?_, ok.refers⟩
  · intro i low
    rw [lookup, fdCount_setOpenFile, ← ok.counted i low]
    split
    · rename_i same
      rw [count, same]
    · rfl
  · intro i low
    rw [lookup, fdCount_setOpenFile, ← ok.used i low]
    split
    · rename_i same
      rw [used, same]
    · rfl

/-- An open file without references is exchanged. -/
theorem exchange (ok : Counted t held) (inside : index < taskMaxOpenFiles) (none : t.fdCount index = 0)
    (zero : o.refCount = 0) (here : o.inUse ↔ held' index) (others : ∀ i ≠ index, held' i ↔ held i) :
    Counted (t.setOpenFile index o) held' := by
  have lookup := openFile_setOpenFile (ok.openFiles ▸ inside) o
  refine ⟨ok.files, by simp [Task.setOpenFile, ok.openFiles], fun i low => ?_, fun i low => ?_, ok.refers⟩
  · rw [lookup, fdCount_setOpenFile, ← ok.counted i low]
    split
    · rename_i same
      rw [same, ok.counted index inside, none, zero]
    · rfl
  · rw [lookup, fdCount_setOpenFile]
    split
    · rename_i same
      rw [here, same, none]
      simp
    · rename_i other
      rw [ok.used i low, others i other]

theorem allocate (ok : Counted t fun _ => False)
    (allocated : t.allocateOpenFile type path append = some (index, t')) :
    index < taskMaxOpenFiles ∧ t'.fdCount index = 0 ∧ t'.files = t.files ∧ Counted t' (· = index) := by
  obtain ⟨i, first, made⟩ := Option.map_eq_some_iff.mp allocated
  cases made
  have inside := List.mem_range.mp (List.mem_of_find?_eq_some first)
  have free : (t.openFile index).inUse = false := by simpa using List.find?_some first
  have none : t.fdCount index = 0 := by
    by_contra some_
    have used := (ok.used index inside).mpr (.inl (Nat.pos_of_ne_zero some_))
    exact Bool.false_ne_true (free.symm.trans used)
  exact ⟨inside, none, rfl, ok.exchange inside none rfl (by simp) fun i other => by simp [other]⟩

theorem giveBack (ok : Counted t (· = index)) (inside : index < taskMaxOpenFiles)
    (none : t.fdCount index = 0) : Counted (t.setOpenFile index {}) fun _ => False :=
  ok.exchange inside none rfl (by simp) fun i other => by simp [other]

theorem refer (ok : Counted t held) (inside : index < taskMaxOpenFiles) (low : fd < taskMaxFds)
    (free : (t.file fd).inUse = false) (used : (t.openFile index).inUse)
    (only : ∀ i, held i → i = index) : Counted (t.refer fd index) fun _ => False := by
  have count := fdCount_setFile_refer low ok.files free index
  have small : t.fdCount index + 1 < 2 ^ 64 :=
    (Nat.succ_le_succ fdCount_le).trans_lt (by decide)
  have length : (t.setFile fd { inUse := true, openFileIndex := index }).openFiles.length
      = taskMaxOpenFiles := ok.openFiles
  have lookup := openFile_setOpenFile (length ▸ inside)
  refine ⟨by simp [Task.refer, Task.setFile, Task.setOpenFile, ok.files],
    by simp [Task.refer, Task.setFile, Task.setOpenFile, ok.openFiles], ?_, ?_, ?_⟩
  · intro i low_i
    simp only [Task.refer, openFile_setFile, lookup, fdCount_setOpenFile, count]
    split
    · rename_i same
      rw [same, ok.counted index inside]
      exact Nat.mod_eq_of_lt small
    · rw [ok.counted i low_i, Nat.add_zero]
  · intro i low_i
    simp only [Task.refer, openFile_setFile, lookup, fdCount_setOpenFile, count]
    split
    · simp [used]
    · rename_i other
      have unheld : ¬held i := fun held_i => other (only i held_i)
      rw [ok.used i low_i]
      simp [unheld]
  · intro x low_x used_x
    have slot := refers_setFile (ok.files ▸ low) { inUse := true, openFileIndex := index } x
    by_cases here : x = fd
    · exact ⟨index, inside, (slot index).mpr (by simp [here])⟩
    · have same : (t.refer fd index).file x = t.file x := by
        simp only [Task.refer, file_setOpenFile]
        rw [file_setFile (ok.files ▸ low), if_neg here]
      rw [same] at used_x
      obtain ⟨i, low_i, refers⟩ := ok.refers x low_x used_x
      exact ⟨i, low_i, (slot i).mpr (by rw [if_neg here]; exact refers)⟩

theorem indexOf_none (ok : Counted t held) (low : fd < taskMaxFds) (none : t.indexOf fd = none) :
    (t.file fd).inUse = false := by
  by_contra used
  obtain ⟨i, inside, -, here⟩ := ok.refers fd low (by simpa using used)
  have used' : (t.file fd).inUse := by simpa using used
  have accepted : (!(t.file fd).inUse || decide ((t.file fd).openFileIndex < 0) ||
      decide ((taskMaxOpenFiles : Int) ≤ (t.file fd).openFileIndex)) = false := by
    simp only [used', Bool.not_true, Bool.false_or, Bool.or_eq_false_iff,
      decide_eq_false_iff_not]
    omega
  simp [Task.indexOf, accepted] at none

theorem indexOf_some (some_ : t.indexOf fd = some index) : index < taskMaxOpenFiles ∧ t.Refers fd index := by
  unfold Task.indexOf at some_
  simp only at some_
  split at some_
  · cases some_
  · rename_i accepted
    simp only [Bool.or_eq_true, Bool.not_eq_true', decide_eq_true_eq, not_or, Bool.not_eq_false, not_le] at accepted
    obtain ⟨⟨used, above⟩, below⟩ := accepted
    have same : (t.file fd).openFileIndex.toNat = index := by simpa using some_
    refine ⟨?_, used, ?_⟩ <;> omega

theorem close (ok : Counted t held) (low : fd < taskMaxFds)
    (unheld : ∀ i, held i → ¬t.Refers fd i) : Counted (t.closeFdSlot fd) held := by
  have slot := refers_setFile (ok.files ▸ low) {}
  have count := fdCount_setFile_clear low ok.files
  -- The other slots refer to what they did.
  have others : ∀ x < taskMaxFds, ((t.setFile fd {}).file x).inUse →
      ∃ i < taskMaxOpenFiles, (t.setFile fd {}).Refers x i := by
    intro x low_x used_x
    rw [file_setFile (ok.files ▸ low)] at used_x
    split at used_x
    · cases used_x
    · rename_i other
      obtain ⟨i, low_i, refers⟩ := ok.refers x low_x used_x
      exact ⟨i, low_i, (slot x i).mpr (by rw [if_neg other]; exact refers)⟩
  unfold Task.closeFdSlot
  cases found : t.indexOf fd with
  | none =>
    have free := ok.indexOf_none low found
    refine ⟨by simp [Task.setFile, ok.files], ok.openFiles, ?_, ?_, others⟩
    · intro i low_i
      rw [count, if_neg (not_refers free)]
      exact ok.counted i low_i
    · intro i low_i
      rw [count, if_neg (not_refers free)]
      exact ok.used i low_i
  | some index =>
    obtain ⟨inside, refers⟩ := indexOf_some found
    have positive := fdCount_pos low refers
    have used := (ok.used index inside).mpr (.inl positive)
    have counted := ok.counted index inside
    have only : ∀ i, t.Refers fd i ↔ i = index := by
      intro i
      constructor
      · intro again
        exact Int.ofNat.inj (again.2.symm.trans refers.2)
      · rintro rfl
        exact refers
    have dropped : t.dropReference index = t.setOpenFile index (t.openFile index).dropped := by
      simp [Task.dropReference, used, counted, positive]
    have lookup : ∀ i, (t.setOpenFile index (t.openFile index).dropped).openFile i
        = if i = index then (t.openFile index).dropped else t.openFile i :=
      openFile_setOpenFile (ok.openFiles ▸ inside) _
    have counts : ∀ i, ((t.setOpenFile index (t.openFile index).dropped).setFile fd {}).fdCount i
        = t.fdCount i - if i = index then 1 else 0 := by
      intro i
      exact (count i).trans (by simp only [only])
    show Counted ((t.dropReference index).setFile fd {}) held
    rw [dropped]
    refine ⟨by simp [Task.setFile, Task.setOpenFile, ok.files],
      by simp [Task.setFile, Task.setOpenFile, ok.openFiles], ?_, ?_, others⟩
    · intro i low_i
      rw [openFile_setFile, lookup, counts]
      by_cases same : i = index
      · rw [if_pos same, if_pos same, same, ← counted, TaskOpenFile.dropped]
        split
        · rename_i last
          exact last.symm
        · rfl
      · rw [if_neg same, if_neg same, Nat.sub_zero, ok.counted i low_i]
    · intro i low_i
      rw [openFile_setFile, lookup, counts]
      by_cases same : i = index
      · have unheld_i : ¬held i := fun held_i => unheld i held_i (same ▸ refers)
        rw [if_pos same, same, ← counted, TaskOpenFile.dropped]
        rw [same] at unheld_i
        split
        · rename_i last
          simp [last, unheld_i]
        · rename_i more
          simp [used, Nat.pos_of_ne_zero more]
      · rw [if_neg same, if_neg same, Nat.sub_zero, ok.used i low_i]

theorem file_closeFdSlot (length : t.files.length = taskMaxFds) (low : fd < taskMaxFds) :
    (t.closeFdSlot fd).file x = if x = fd then {} else t.file x := by
  unfold Task.closeFdSlot
  have slot : ∀ u : Task, u.files = t.files → (u.setFile fd {}).file x = if x = fd then {} else t.file x := by
    intro u same
    have equal : u.file x = t.file x := by simp only [Task.file, same]
    rw [file_setFile (by rw [same, length]; exact low), equal]
  split
  · exact slot t rfl
  · refine slot _ ?_
    unfold Task.dropReference
    simp only
    split <;> rfl

theorem refers_closeFdSlot (length : t.files.length = taskMaxFds) (low : fd < taskMaxFds)
    (other : x ≠ fd) : (t.closeFdSlot fd).Refers x i ↔ t.Refers x i := by
  unfold Refers
  rw [file_closeFdSlot length low, if_neg other]

theorem currentOpenFileForFd_some {fd} (found : t.currentOpenFileForFd fd = some index) :
    fdIsValid fd ∧ index < taskMaxOpenFiles ∧ t.Refers fd.toNat index ∧
      (t.openFile index).inUse := by
  unfold Task.currentOpenFileForFd at found
  split at found
  · cases found
  · rename_i valid
    obtain ⟨located, used⟩ := Option.filter_eq_some_iff.mp found
    obtain ⟨inside, refers⟩ := indexOf_some located
    exact ⟨by simpa using valid, inside, refers, used⟩

theorem toNat_lt {fd} (valid : fdIsValid fd) : fd.toNat < taskMaxFds := by
  simp only [fdIsValid, Bool.and_eq_true, decide_eq_true_eq] at valid
  omega

/-! ### The calls -/

section Calls

variable {σ : Type} (table : List (Filesystem σ)) (s : σ)

section

variable (ok : Counted t fun _ => False)

include ok

theorem openExisting : Counted (TangPingOS.openExisting table path type append s t).2 fun _ => False := by
  unfold TangPingOS.openExisting
  split
  · exact ok
  · rename_i index t₁ allocated
    obtain ⟨inside, none, -, ok₁⟩ := ok.allocate allocated
    split
    · exact ok₁.giveBack inside none
    · rename_i offset _
      have ok₂ : Counted (t₁.setOpenFile index { t₁.openFile index with offset := offset }) (· = index) :=
        ok₁.setOpenFile inside rfl rfl
      simp only
      split
      · exact ok₂.giveBack inside none
      · rename_i fd free
        obtain ⟨low, unused⟩ := freeFd_some free
        exact ok₂.refer inside low unused ((ok₂.used index inside).mpr (.inr rfl)) fun i held => held

theorem openCurrentFile : Counted (TangPingOS.openCurrentFile table path flags s t).2.2 fun _ => False := by
  obtain same | ⟨name, type, append, s', opened⟩ := openCurrentFile_cases table path flags s t
  · rw [same]
    exact ok
  · rw [opened]
    exact ok.openExisting table s'

theorem closeCurrentFile {fd : Int} : Counted (TangPingOS.closeCurrentFile fd t).2 fun _ => False := by
  unfold TangPingOS.closeCurrentFile
  split
  · exact ok
  · rename_i index found
    exact ok.close (toNat_lt (currentOpenFileForFd_some found).1) fun _ impossible => impossible.elim

/-- What is duplicated is in use, and stays so when another descriptor is closed. -/
theorem dup2Source (valid : fdIsValid oldFd ∧ fdIsValid newFd)
    (other : oldFd ≠ newFd) (source : TangPingOS.dup2Source oldFd t = some (index, t')) :
    t'.files = t.files ∧ index < taskMaxOpenFiles ∧
      ∃ held : Nat → Prop, Counted (t'.closeFdSlot newFd.toNat) held ∧ (∀ i, held i → i = index) ∧
        ((t'.closeFdSlot newFd.toNat).openFile index).inUse := by
  have low := toNat_lt valid.2
  unfold TangPingOS.dup2Source at source
  split at source
  · rename_i found
    cases source
    obtain ⟨-, inside, refers, -⟩ := currentOpenFileForFd_some found
    have closed := ok.close low fun _ impossible => impossible.elim
    have apart : oldFd.toNat ≠ newFd.toNat := by
      simp only [fdIsValid, Bool.and_eq_true, decide_eq_true_eq] at *
      omega
    have still := (refers_closeFdSlot ok.files low apart).mpr refers
    exact ⟨rfl, inside, _, closed, fun _ impossible => impossible.elim,
      (closed.used index inside).mpr (.inl (fdCount_pos (toNat_lt valid.1) still))⟩
  · split at source
    · obtain ⟨inside, none, same, ok₁⟩ := ok.allocate source
      have closed := ok₁.close low fun i held refers =>
        absurd (fdCount_pos low (held ▸ refers)) (by rw [none]; exact Nat.lt_irrefl 0)
      exact ⟨same, inside, _, closed, fun _ held => held, (closed.used index inside).mpr (.inr rfl)⟩
    · cases source

theorem dup2CurrentFile (oldFd newFd : Int) :
    Counted (TangPingOS.dup2CurrentFile oldFd newFd t).2 fun _ => False := by
  obtain ⟨same, -⟩ | ⟨index, t₁, valid, other, source, result⟩ := dup2CurrentFile_cases oldFd newFd t
  · rw [same]
    exact ok
  · obtain ⟨same, inside, held, closed, only, used⟩ := ok.dup2Source valid other source
    have low := toNat_lt valid.2
    have free : ((t₁.closeFdSlot newFd.toNat).file newFd.toNat).inUse = false := by
      rw [file_closeFdSlot (same ▸ ok.files) low, if_pos rfl]
    rw [result]
    exact closed.refer inside low free used only

end

variable (ok : Counted t held)

include ok

/-- Reading, writing and seeking move the offset of an open file. -/
theorem setOffset {fd file} (found : currentVfsFile fd t = some (index, file)) :
    Counted (t.setOpenFile index { file with offset := offset }) held := by
  obtain ⟨i, located, accepted⟩ := Option.bind_eq_some_iff.mp found
  split at accepted
  · cases accepted
    exact ok.setOpenFile (currentOpenFileForFd_some located).2.1 rfl rfl
  · cases accepted

theorem readCurrentFile {fd : Int} : Counted (TangPingOS.readCurrentFile table fd buffer len s t).2 held := by
  unfold TangPingOS.readCurrentFile
  split
  · exact ok
  · split
    · exact ok
    · rename_i found
      split
      · exact ok
      · exact ok.setOffset found

theorem writeCurrentFile {fd : Int} : Counted (TangPingOS.writeCurrentFile table fd buffer s t).2.2 held := by
  unfold TangPingOS.writeCurrentFile
  split
  · rename_i found
    split
    · exact ok
    · split
      · exact ok
      · exact ok.setOffset found
  · exact ok

theorem seekCurrentFile {fd offset : Int} :
    Counted (TangPingOS.seekCurrentFile table fd offset whence s t).2 held := by
  unfold TangPingOS.seekCurrentFile
  split
  · exact ok
  · rename_i found
    split
    · exact ok
    · exact ok.setOffset found

end Calls

end Counted

end Task

end TangPingOS
