import TangPingOS.Process.Descriptors
import TangPingOS.Process.Writes

/-! # What the file calls report

The results of `lseek`, of the calls on a descriptor number that does not exist, and of an
`open` that fails. A seek may arrive at the number that stands for a failure, a number is
cut to 32 bits before it is checked, and a file is created before a descriptor is looked for.
-/

namespace TangPingOS

open Lib Relation

variable {σ : Type} {table : List (Filesystem σ)} {s : σ} {t : Task}

/-- No offset to count from, or none to arrive at; the most negative offset is never taken. -/
def SeekRejected (table : List (Filesystem σ)) (file : TaskOpenFile) (offset : Int) (whence : Nat) (s : σ) : Prop :=
  ∀ base, seekBase table file whence s = some base →
    offset = -2 ^ 63 ∨ base + offset < 0 ∨ u64Max < base + offset

/-- The result tells whether the seek was rejected, and is where it arrived. -/
structure SeekReports (table : List (Filesystem σ)) (fd offset : Int) (whence : Nat) (s : σ) (t : Task)
    (index : Nat) (file : TaskOpenFile) : Prop where
  failed : (seekCurrentFile table fd offset whence s t).1 = u64Max ↔
    SeekRejected table file offset whence s ∧
      ((seekCurrentFile table fd offset whence s t).2.openFile index).offset = file.offset
  arrived : ¬SeekRejected table file offset whence s → ∃ base, seekBase table file whence s = some base ∧
    ((seekCurrentFile table fd offset whence s t).1 : Int) = base + offset ∧
    ((seekCurrentFile table fd offset whence s t).2.openFile index).offset
      = (seekCurrentFile table fd offset whence s t).1

theorem seekTarget_none_iff (word : base ≤ u64Max) :
    seekTarget base offset = none ↔ offset = -2 ^ 63 ∨ base + offset < 0 ∨ u64Max < base + offset := by
  unfold seekTarget
  split
  · split
    · simp_all
    · split
      · simp only [true_iff]
        omega
      · simp only [reduceCtorEq, false_iff]
        omega
  · split
    · simp only [true_iff]
      omega
    · simp only [reduceCtorEq, false_iff]
      omega

theorem seekTarget_some (arrives : seekTarget base offset = some target) : (target : Int) = base + offset := by
  unfold seekTarget at arrives
  split at arrives
  · split at arrives
    · cases arrives
    · split at arrives
      · cases arrives
      · cases arrives
        omega
  · split at arrives
    · cases arrives
    · cases arrives
      omega

/-- The results of `lseek` are unambiguous just if the seek does not arrive at the number for a failure. -/
theorem lseek_unambiguous_iff {fd offset : Int} {whence index : Nat} {file : TaskOpenFile}
    (opened : currentVfsFile fd t = some (index, file))
    (word : ∀ base, seekBase table file whence s = some base → base ≤ u64Max) :
    SeekReports table fd offset whence s t index file ↔
      ∀ base, seekBase table file whence s = some base → base + offset ≠ u64Max := by
  obtain ⟨-, isFile, -, -, inside⟩ := currentVfsFile_spec opened
  cases from_ : seekBase table file whence s with
  | none =>
    have rejected : SeekRejected table file offset whence s := fun base found => nomatch from_.symm.trans found
    have result : seekCurrentFile table fd offset whence s t = (u64Max, t) := by
      simp [seekCurrentFile, opened, from_]
    refine iff_of_true ⟨?_, fun accepted => absurd rejected accepted⟩ nofun
    rw [result, ← isFile]
    exact iff_of_true rfl ⟨rejected, rfl⟩
  | some base =>
    have rejected : SeekRejected table file offset whence s ↔ seekTarget base offset = none := by
      simp [SeekRejected, from_, seekTarget_none_iff (word base from_)]
    cases arrives : seekTarget base offset with
    | none =>
      have result : seekCurrentFile table fd offset whence s t = (u64Max, t) := by
        simp [seekCurrentFile, opened, from_, arrives]
      refine iff_of_true ⟨?_, fun accepted => absurd (rejected.mpr arrives) accepted⟩ ?_
      · rw [result, ← isFile]
        exact iff_of_true rfl ⟨rejected.mpr arrives, rfl⟩
      · rintro _ ⟨⟩ there
        have bound := (seekTarget_none_iff (word base from_)).mp arrives
        have low := word base from_
        omega
    | some target =>
      have accepted : ¬SeekRejected table file offset whence s := fun none => nomatch arrives.symm.trans (rejected.mp none)
      have sum := seekTarget_some arrives
      have result : seekCurrentFile table fd offset whence s t
          = (target, t.setOpenFile index { file with offset := target }) := by
        simp [seekCurrentFile, opened, from_, arrives]
      have stored := Task.openFile_setOpenFile inside { file with offset := target } index
      rw [if_pos rfl] at stored
      constructor
      · rintro reports _ ⟨⟩ there
        refine accepted (reports.failed.mp ?_).1
        rw [result]
        omega
      · intro elsewhere
        have other := elsewhere base rfl
        refine ⟨iff_of_false ?_ fun both => accepted both.1, fun _ => ⟨base, from_, ?_, ?_⟩⟩
        · rw [result]
          omega
        · rw [result]
          exact sum
        · rw [result, stored]

/-- The task has `/a` open as descriptor 3. -/
def opener : Task := (openCurrentFile [fourBytes] (some [slash, 0x61]) 0 () {}).2.2

/-- Two steps into the file. -/
theorem lseek_unambiguous_two :
    SeekReports [fourBytes] 3 2 seekSet () opener 0 (opener.openFile 0) ∧
      (seekCurrentFile [fourBytes] 3 2 seekSet () opener).1 = 2 := by
  refine ⟨(lseek_unambiguous_iff rfl ?_).mpr ?_, rfl⟩
  · decide
  · decide

/-- Twice the largest offset, and one more: the third seek is accepted, and reports a failure. -/
theorem lseek_ambiguous :
    ∃ y, FileRun [fourBytes] (fun _ _ => True) ((), oneTask) y ∧
      currentVfsFile 3 (y.2.taskAt (.task 0)) = some (0, (y.2.taskAt (.task 0)).openFile 0) ∧
      ¬SeekReports [fourBytes] 3 1 seekCur () (y.2.taskAt (.task 0)) 0 ((y.2.taskAt (.task 0)).openFile 0) ∧
      ((seekCurrentFile [fourBytes] 3 1 seekCur () (y.2.taskAt (.task 0))).2.openFile 0).offset = u64Max := by
  have run : FileRun [fourBytes] (fun _ _ => True) ((), oneTask) _ :=
    ((ReflTransGen.single ⟨.call (.openFile (some [slash, 0x61]) 0), trivial, rfl⟩).tail
      ⟨.call (.seekFile 3 (2 ^ 63 - 1) seekSet), trivial, rfl⟩).tail
      ⟨.call (.seekFile 3 (2 ^ 63 - 1) seekCur), trivial, rfl⟩
  refine ⟨_, run, rfl, fun reports => ?_, rfl⟩
  have moved := (reports.failed.mp rfl).2
  exact absurd moved (by decide)

/-- A call of the current task; it fails if there is none, or the boot task is. -/
def Kernel.callCurrent (call : Task → Int × Task) (k : Kernel) : Int × Kernel :=
  match k.current with
  | .task i =>
    let (result, t) := call (k.taskAt (.task i))
    (result, k.modifyTask (.task i) fun _ => t)
  | _ => (-1, k)

def syscallClose (fd : Nat) (k : Kernel) : Nat × Kernel :=
  let (result, k) := k.callCurrent (closeCurrentFile (asInt fd))
  (if result = 0 then 0 else u64Max, k)

/-- `SYSCALL_DUP2` in `syscall_dispatch`; the `int` is extended to the register. -/
def syscallDup2 (oldFd newFd : Nat) (k : Kernel) : Nat × Kernel :=
  let (result, k) := k.callCurrent (dup2CurrentFile (asInt oldFd) (asInt newFd))
  ((result % 2 ^ 64).toNat, k)

/-- `syscall_lseek`, with the offset as an `int64_t`. -/
def syscallLseek (table : List (Filesystem σ)) (fd : Nat) (offset : Int) (whence : Nat) (s : σ) (k : Kernel) :
    Nat × Kernel :=
  match k.current with
  | .task i =>
    let (result, t) := seekCurrentFile table (asInt fd) offset whence s (k.taskAt (.task i))
    (result, k.modifyTask (.task i) fun _ => t)
  | _ => (u64Max, k)

/-- What `syscall_write` shows on the console. -/
def syscallWriteShown (fd buf len : Nat) (k : Kernel) : Bytes :=
  if k.currentFdIsTty (asInt fd) then (syscallWriteBuffer buf len k.machine).2 else []

/-- Every call on the descriptor number fails and changes nothing. -/
structure FdRefused (table : List (Filesystem σ)) (s : σ) (ring : InputRing) (fd : Nat) (k : Kernel) : Prop where
  read : ∀ buffer len, syscallRead table s fd buffer len ring k = ⟨.failed, [], ring, k⟩
  write : ∀ buf len, 0 < len → syscallWrite table fd buf len s k = (none, s, k) ∧ syscallWriteShown fd buf len k = []
  close : syscallClose fd k = (u64Max, k)
  lseek : ∀ offset whence, syscallLseek table fd offset whence s k = (u64Max, k)
  dup2 : ∀ other, syscallDup2 fd other k = (u64Max, k) ∧ syscallDup2 other fd k = (u64Max, k)

theorem callCurrent_refused (refused : ∀ t, f t = (-1, t)) (k : Kernel) : k.callCurrent f = (-1, k) := by
  unfold Kernel.callCurrent
  split
  · simp [refused, Kernel.modifyTask_self]
  · rfl

section Invalid

variable {fd : Int} (invalid : fdIsValid fd = false)

include invalid

theorem currentOpenFileForFd_invalid : t.currentOpenFileForFd fd = none := by
  simp [Task.currentOpenFileForFd, invalid]

theorem currentVfsFile_invalid : currentVfsFile fd t = none := by
  rw [currentVfsFile, currentOpenFileForFd_invalid invalid, Option.bind_none]

theorem notTty_invalid (k : Kernel) : k.currentFdIsTty fd = false := by
  unfold Kernel.currentFdIsTty
  split
  · simp [currentFdIsTty, invalid]
  · rfl

theorem readCurrentFile_invalid (k : Kernel) : k.readCurrentFile table fd len s = (none, k) := by
  unfold Kernel.readCurrentFile
  split
  · simp [readCurrentFile, currentVfsFile_invalid invalid, Kernel.modifyTask_self]
  · rfl

theorem writeCurrentFile_invalid (k : Kernel) : k.writeCurrentFile table fd bytes s = (none, s, k) := by
  unfold Kernel.writeCurrentFile
  split
  · simp [writeCurrentFile, currentVfsFile_invalid invalid, Kernel.modifyTask_self]
  · rfl

end Invalid

theorem fdRefused_of_invalid {ring : InputRing} {fd : Nat} (invalid : fdIsValid (asInt fd) = false) :
    FdRefused table s ring fd k where
  read buffer len := by
    unfold syscallRead
    simp only [notTty_invalid invalid, readCurrentFile_invalid invalid]
    split <;> rfl
  write buf len some_ := by
    refine ⟨?_, by simp [syscallWriteShown, notTty_invalid invalid]⟩
    unfold syscallWrite
    simp only [notTty_invalid invalid]
    split
    · contradiction
    · split
      · rfl
      · rw [chunks, if_neg (by omega), chunkRound]
        cases copyFromUser (wrap64 (buf + 0)) (min syscallWriteChunkSize (len - 0)) k.machine with
        | none => rfl
        | some chunk => simp only [writeCurrentFile_invalid invalid]
  close := by
    have refused := callCurrent_refused (f := closeCurrentFile (asInt fd))
      (fun t => by simp [closeCurrentFile, currentOpenFileForFd_invalid invalid]) k
    simp [syscallClose, refused]
  lseek offset whence := by
    unfold syscallLseek
    split
    · simp [seekCurrentFile, currentVfsFile_invalid invalid, Kernel.modifyTask_self]
    · rfl
  dup2 other := by
    have old := callCurrent_refused (f := dup2CurrentFile (asInt fd) (asInt other))
      (fun t => by simp [dup2CurrentFile, invalid]) k
    have new := callCurrent_refused (f := dup2CurrentFile (asInt other) (asInt fd))
      (fun t => by simp [dup2CurrentFile, invalid]) k
    simp only [syscallDup2, old, new]
    exact ⟨rfl, rfl⟩

/-- A descriptor number is refused in every state just if its low 32 bits are no descriptor. -/
theorem descriptor_not_aliased_iff (ring : InputRing) (fd : Nat) :
    (∀ k, FdRefused table s ring fd k) ↔ fdIsValid (asInt fd) = false := by
  constructor
  · intro refused
    by_contra valid
    have range : 0 ≤ asInt fd ∧ asInt fd < taskMaxFds := by simpa [fdIsValid] using valid
    -- a task without open files can duplicate the terminal to every descriptor
    have duplicated := congrArg Prod.fst ((refused oneTask).dup2 0).2
    simp only [syscallDup2] at duplicated
    obtain ⟨n, isNumber⟩ := Int.eq_ofNat_of_zero_le range.1
    rw [isNumber] at duplicated range
    have every : ∀ n < taskMaxFds,
        ((oneTask.callCurrent (dup2CurrentFile (asInt 0) n)).1 % 2 ^ 64).toNat ≠ u64Max := by decide
    exact every n (Int.ofNat_lt.mp range.2) duplicated
  · intro invalid k
    exact fdRefused_of_invalid invalid

/-- 2 ^ 32 is taken for descriptor 0, and duplicated. -/
theorem descriptor_aliased :
    10 < 2 ^ 32 ∧ (syscallDup2 (2 ^ 32) 3 oneTask).1 = 3 ∧
      ∀ ring, ¬FdRefused [fourBytes] () ring (2 ^ 32) oneTask := by
  refine ⟨by decide, by decide, fun ring refused => ?_⟩
  exact absurd (congrArg Prod.fst (refused.dup2 3).1) (by decide)

section

variable (table : List (Filesystem σ))

/-- Every file reads the same; with no bytes asked for, that is whether it exists. -/
def SameFiles (s s' : σ) : Prop :=
  ∀ path offset len, vfsReadFile table path offset len s' = vfsReadFile table path offset len s

/-- The open file that the next `open` takes. -/
def Task.freeOpenFile (t : Task) : Option Nat :=
  (List.range taskMaxOpenFiles).find? fun index => !(t.openFile index).inUse

/-- What `scheduler_open_current_file` asks of the filesystems: to create or to truncate the file. -/
def openPrepares (path : Bytes) (flags : Nat) (s : σ) : Bool × σ :=
  let flags := if ttyIsPath path then 0 else flags
  if vfsFileExists table path s then
    if anyBit flags openTrunc then vfsTruncateFile table path 0 s else (true, s)
  else if anyBit flags openCreate then vfsCreateFile table path s
  else (false, s)

def opensToAppend (path : Bytes) (flags : Nat) : Bool := !ttyIsPath path && anyBit flags openAppend

/-- An open file and a descriptor are free. -/
def Task.Spare (t : Task) : Prop := t.freeOpenFile.isSome ∧ t.freeFd.isSome

/-- The next open file is in its reset state, as unused ones are. -/
def Task.Blank (t : Task) : Prop := ∀ index, t.freeOpenFile = some index → t.openFile index = {}

/-- The task has room for one more, and the end of the file is known if it is needed. -/
def OpenRoom (path : Bytes) (append : Bool) (s : σ) (t : Task) : Prop :=
  t.Spare ∧ (append → (vfsFileSize table path s).isSome)

end

theorem setOpenFile_eq_self_iff : t.setOpenFile index {} = t ↔ t.openFile index = {} := by
  by_cases inside : index < t.openFiles.length
  · constructor
    · intro same
      have stored := Task.openFile_setOpenFile inside {} index
      rwa [same, if_pos rfl] at stored
    · intro blank
      have same : t.openFiles.set index {} = t.openFiles := by
        rw [← blank, Task.openFile, List.getD_eq_getElem _ _ inside, List.set_getElem_self]
      rw [Task.setOpenFile, same]
  · refine iff_of_true ?_ (List.getD_eq_default _ _ (Nat.le_of_not_lt inside))
    rw [Task.setOpenFile, List.set_eq_of_length_le (Nat.le_of_not_lt inside)]

theorem freeFd_setOpenFile : (t.setOpenFile index o).freeFd = t.freeFd := rfl

theorem setOpenFile_twice : (t.setOpenFile index o).setOpenFile index o' = t.setOpenFile index o' := by
  simp [Task.setOpenFile]

theorem openExisting_room
    (room : OpenRoom table path append s t) : (openExisting table path type append s t).1 ≠ -1 := by
  obtain ⟨⟨free, spare⟩, size⟩ := room
  obtain ⟨index, free⟩ := Option.isSome_iff_exists.mp free
  obtain ⟨fd, spare⟩ := Option.isSome_iff_exists.mp spare
  have known : (if type = .vfs ∧ append then vfsFileSize table path s else some 0).isSome := by
    split
    · rename_i asked
      exact size asked.2
    · rfl
  obtain ⟨offset, known⟩ := Option.isSome_iff_exists.mp known
  unfold Task.freeOpenFile at free
  simp [openExisting, Task.allocateOpenFile, free, known, freeFd_setOpenFile, spare]

/-- An open that gets no descriptor leaves the open file that it has taken reset. -/
theorem openExisting_full (isVfs : append = true → type = .vfs) (full : ¬OpenRoom table path append s t) :
    openExisting table path type append s t = (-1, t.freeOpenFile.elim t fun index => t.setOpenFile index {}) := by
  cases free : t.freeOpenFile with
  | none =>
    unfold Task.freeOpenFile at free
    simp [openExisting, Task.allocateOpenFile, free]
  | some index =>
    cases known : if type = .vfs ∧ append then vfsFileSize table path s else some 0 with
    | none =>
      unfold Task.freeOpenFile at free
      simp [openExisting, Task.allocateOpenFile, free, known, setOpenFile_twice]
    | some offset =>
      have size : append → (vfsFileSize table path s).isSome := by
        intro asked
        rw [if_pos ⟨isVfs asked, asked⟩] at known
        rw [known]
        rfl
      have spare : t.freeFd = none := by
        by_contra some_
        exact full ⟨⟨by rw [free]; rfl, Option.isSome_iff_ne_none.mpr some_⟩, size⟩
      unfold Task.freeOpenFile at free
      simp [openExisting, Task.allocateOpenFile, free, known, freeFd_setOpenFile, spare, setOpenFile_twice]

theorem openCurrentFile_eq :
    openCurrentFile table (some path) flags s t =
      if (openPrepares table path flags s).1 then
        let (fd, t) := openExisting table path (if ttyIsPath path then .tty else .vfs) (opensToAppend path flags)
          (openPrepares table path flags s).2 t
        (fd, (openPrepares table path flags s).2, t)
      else (-1, (openPrepares table path flags s).2, t) := by
  obtain ⟨done, s', ran⟩ : ∃ done s', vfsTruncateFile table path 0 s = (done, s') := ⟨_, _, rfl⟩
  have none : ∀ bit, anyBit 0 bit = false := fun bit => by simp [anyBit]
  cases isTty : ttyIsPath path <;> cases there : vfsFileExists table path s <;> cases done <;>
    cases create : anyBit flags openCreate <;> cases trunc : anyBit flags openTrunc <;>
    simp [openCurrentFile, openPrepares, opensToAppend, isTty, there, vfsCreateFile, ran, none, create, trunc]

/-- With any filesystems: what the call asks of them changes nothing, and the open file that it takes for a
    while was reset before, or there is room for one more. -/
theorem openCurrentFile_unchanged_iff :
    ((openCurrentFile table path flags s t).1 = -1 →
      SameFiles table s (openCurrentFile table path flags s t).2.1 ∧
      (openCurrentFile table path flags s t).2.2 = t) ↔
    ∀ p, path = some p →
      ((openPrepares table p flags s).1 ∧
        OpenRoom table p (opensToAppend p flags) (openPrepares table p flags s).2 t) ∨
      (SameFiles table s (openPrepares table p flags s).2 ∧
        ((openPrepares table p flags s).1 → t.Blank)) := by
  cases path with
  | none => exact iff_of_true (fun _ => ⟨fun _ _ _ => rfl, rfl⟩) nofun
  | some p =>
    rw [openCurrentFile_eq]
    simp only [Option.some.injEq, forall_eq']
    cases done : (openPrepares table p flags s).1 with
    | false => simp
    | true =>
      by_cases room : OpenRoom table p (opensToAppend p flags) (openPrepares table p flags s).2 t
      · exact iff_of_true (fun failed => absurd failed (openExisting_room room)) (.inl ⟨rfl, room⟩)
      · have isVfs : opensToAppend p flags → (if ttyIsPath p then TaskFileType.tty else .vfs) = .vfs := by
          unfold opensToAppend
          cases ttyIsPath p <;> simp
        simp only [if_true, openExisting_full isVfs room, room, and_false, false_or, true_imp_iff]
        refine and_congr_right fun _ => ?_
        cases free : t.freeOpenFile with
        | none => simp [Task.Blank, free]
        | some index => simp [Task.Blank, free, setOpenFile_eq_self_iff]

/-- Truncation is left to the memory filesystem. -/
theorem vfsTruncateFile_boot {s : BootState β} :
    vfsTruncateFile bootTable p size s = onRamfs (ramfsTruncate p size) s := by
  by_cases absolute : p.head? = some slash
  · have passed := dispatch_ramfs (s := s) (truncateCall size)
      (f := fun path => succeeded (onRamfs (ramfsTruncate path size))) rfl rfl rfl absolute
      fun _ => (rfl : dispatch _ _ [] _ = _)
    rw [List.append_nil] at passed
    have done := congrArg (fun result => result.1.isSome) passed
    have after := congrArg Prod.snd passed
    simp only [Option.isSome_map, succeeded_isSome] at done
    exact Prod.ext done after
  · have invalid : ramfsPathValid p = false := by
      rw [Bool.eq_false_iff, ne_eq, ramfsPathValid_iff]
      exact fun valid => absolute valid.head
    simp [vfsTruncateFile, dispatch_relative absolute, onRamfs, ramfsTruncate, invalid]

theorem vfsReadFile_congr {s' : σ} {offset len : Nat} (same : ∀ fs ∈ table,
      fs.read (mountLocalPath fs p) offset len s' = fs.read (mountLocalPath fs p) offset len s) :
    vfsReadFile table p offset len s' = vfsReadFile table p offset len s := by
  unfold vfsReadFile
  induction table with
  | nil => rfl
  | cons fs rest ih =>
    have later := ih fun other member => same other (List.mem_cons_of_mem fs member)
    simp only [dispatch, readCall, same fs List.mem_cons_self]
    split
    · exact later
    · cases fs.read (mountLocalPath fs p) offset len s with
      | none => exact later
      | some bytes => rfl

/-- Of the memory filesystem, a read shows what it has at the path. -/
theorem vfsReadFile_onRamfs {s : BootState β} {f : Ramfs → α × Ramfs}
    (kept : (f s.ramfs).2.files p = s.ramfs.files p) :
    vfsReadFile bootTable p offset len (onRamfs f s).2 = vfsReadFile bootTable p offset len s := by
  have held : ramfsRead p offset len (f s.ramfs).2 = ramfsRead p offset len s.ramfs := by
    rw [ramfsRead_refines, ramfsRead_refines, FileMap.read, FileMap.read, kept]
  apply vfsReadFile_congr
  simp only [bootTable, List.forall_mem_cons, List.not_mem_nil, false_imp_iff, implies_true, and_true]
  exact ⟨rfl, held, rfl⟩

section

variable (s : BootState β) (p : Bytes)

/-- The call asks for a file to be made or to be emptied. -/
def openAsks (flags : Nat) : Bool :=
  !ttyIsPath p && anyBit flags (if vfsFileExists bootTable p s then openTrunc else openCreate)

/-- The memory filesystem has the file, or makes it. -/
def RamfsTakes : Prop := ValidPath p ∧ FileMap.Editable ramfsLimits s.ramfs.files p

theorem openPrepares_boot :
    openPrepares bootTable p flags s =
      if openAsks s p flags then onRamfs (ramfsTruncate p 0) s else (vfsFileExists bootTable p s, s) := by
  have none : ∀ bit, anyBit 0 bit = false := fun bit => by simp [anyBit]
  unfold openPrepares openAsks
  rw [← vfsTruncateFile_boot]
  cases ttyIsPath p <;> cases vfsFileExists bootTable p s <;> simp [none, vfsCreateFile]

end

section Emptied

variable {s : BootState β} (ok : RamfsOk s.ramfs)

include ok

theorem ramfsTruncate_taken (takes : RamfsTakes s p) :
    (ramfsTruncate p 0 s.ramfs).1 ∧
      (ramfsTruncate p 0 s.ramfs).2.files = Function.update s.ramfs.files p (some []) := by
  have agrees := (ramfsTruncate_refines (p := p) ok 0).2
  have accepted : (s.ramfs.files.truncate ramfsLimits p 0).1 :=
    FileMap.truncate_iff.mpr ⟨takes.1, Nat.zero_le _, takes.2⟩
  have files := FileMap.truncate_accepted accepted
  rw [agrees] at accepted files
  exact ⟨accepted, files.trans (by simp [resize])⟩

theorem ramfsTruncate_untaken (full : ¬RamfsTakes s p) :
    (ramfsTruncate p 0 s.ramfs).1 = false ∧ (ramfsTruncate p 0 s.ramfs).2.files = s.ramfs.files := by
  have agrees := (ramfsTruncate_refines (p := p) ok 0).2
  have refused : (s.ramfs.files.truncate ramfsLimits p 0).1 = false := by
    rw [Bool.eq_false_iff, ne_eq, FileMap.truncate_iff]
    exact fun accepted => full ⟨accepted.1, accepted.2.2⟩
  have files := FileMap.truncate_failed refused
  rw [agrees] at refused files
  exact ⟨refused, files⟩

/-- Emptying a file shows unless it is there and empty already. -/
theorem sameFiles_emptied_iff (takes : RamfsTakes s p) :
    SameFiles bootTable s (onRamfs (ramfsTruncate p 0) s).2 ↔ vfsReadFile bootTable p 0 1 s = some [] := by
  have files := (ramfsTruncate_taken ok takes).2
  have emptied (offset len : Nat) : vfsReadFile bootTable p offset len (onRamfs (ramfsTruncate p 0) s).2 = some [] := by
    rw [vfsReadFile_boot takes.1]
    simp [onRamfs, files]
  constructor
  · intro same
    rw [← same p 0 1, emptied]
  · intro empty q offset len
    by_cases here : q = p
    · subst here
      rw [emptied]
      rw [vfsReadFile_boot takes.1] at empty ⊢
      obtain ⟨content, held, none⟩ := Option.map_eq_some_iff.mp empty
      cases content with
      | nil => simp [held]
      | cons b rest => cases none
    · exact vfsReadFile_onRamfs (by rw [files, Function.update_of_ne here])

end Emptied

/-- A failed `open` changes nothing just if it asks for no change, or for one that is refused or would not show,
    and the open file that it takes for a while was reset before; it does not fail where there is room for one
    more. -/
theorem failed_open_unchanged_iff {s : BootState β} (ok : RamfsOk s.ramfs) (path : Option Bytes) (flags : Nat)
    (t : Task) :
    ((openCurrentFile bootTable path flags s t).1 = -1 →
      SameFiles bootTable s (openCurrentFile bootTable path flags s t).2.1 ∧
      (openCurrentFile bootTable path flags s t).2.2 = t) ↔
    ∀ p, path = some p →
      (openAsks s p flags = true → RamfsTakes s p →
        t.Spare ∨ vfsReadFile bootTable p 0 1 s = some [] ∧ t.Blank) ∧
      (openAsks s p flags = false → vfsFileExists bootTable p s = true →
        t.Spare ∧ (opensToAppend p flags = true → (vfsFileSize bootTable p s).isSome = true) ∨ t.Blank) := by
  rw [openCurrentFile_unchanged_iff]
  refine forall₂_congr fun p _ => ?_
  rw [openPrepares_boot]
  cases asks : openAsks s p flags with
  | false =>
    cases there : vfsFileExists bootTable p s with
    | false => simp [SameFiles]
    | true => simp [SameFiles, OpenRoom]
  | true =>
    by_cases takes : RamfsTakes s p
    · obtain ⟨done, files⟩ := ramfsTruncate_taken ok takes
      have known : (vfsFileSize bootTable p (onRamfs (ramfsTruncate p 0) s).2).isSome := by
        have held : (onRamfs (ramfsTruncate p 0) s).2.ramfs.files p = some [] := by simp [onRamfs, files]
        have size : vfsFileSize (bootTable ++ []) p _ = _ := vfsFileSize_ramfs takes.1.head held
        rw [List.append_nil] at size
        rw [size]
        rfl
      have first : (onRamfs (ramfsTruncate p 0) s).1 := done
      simp [first, OpenRoom, known, takes, sameFiles_emptied_iff ok takes]
    · obtain ⟨refused, files⟩ := ramfsTruncate_untaken ok takes
      have first : (onRamfs (ramfsTruncate p 0) s).1 = false := refused
      have same : SameFiles bootTable s (onRamfs (ramfsTruncate p 0) s).2 :=
        fun q offset len => vfsReadFile_onRamfs (congrFun files q)
      simp [first, takes, same]

/-- `/a` is open on all eight descriptors. -/
def eightOpen : Task := (fun t => (openCurrentFile bootTable (some [slash, 0x61]) 0 emptyFile t).2.2)^[8] {}

/-- There is no descriptor left to truncate `/a` with, which is empty anyway. -/
theorem failed_open_unchanged_empty :
    (openCurrentFile bootTable (some [slash, 0x61]) openTrunc emptyFile eightOpen).1 = -1 ∧
    SameFiles bootTable emptyFile (openCurrentFile bootTable (some [slash, 0x61]) openTrunc emptyFile eightOpen).2.1 ∧
    (openCurrentFile bootTable (some [slash, 0x61]) openTrunc emptyFile eightOpen).2.2 = eightOpen := by
  have failed : (openCurrentFile bootTable (some [slash, 0x61]) openTrunc emptyFile eightOpen).1 = -1 := by
    decide +kernel
  have full : eightOpen.freeOpenFile = none := by decide +kernel
  have unchanged := (failed_open_unchanged_iff emptyFile_ok (some [slash, 0x61]) openTrunc eightOpen).mpr
  refine ⟨failed, unchanged ?_ failed⟩
  rintro p ⟨⟩
  refine ⟨fun _ _ => .inr ⟨by decide +kernel, fun index free => ?_⟩, fun asks => ?_⟩
  · cases full.symm.trans free
  · cases (show openAsks emptyFile [slash, 0x61] openTrunc by decide +kernel).symm.trans asks

/-- With eight descriptors open, the next `open` creates its file and fails. -/
theorem failed_open_creates :
    ∃ y, FileRun bootTable (fun _ _ => True) (emptyFile, oneTask) y ∧
      (openCurrentFile bootTable (some [slash, 0x62]) openCreate y.1 (y.2.taskAt (.task 0))).1 = -1 ∧
      vfsFileExists bootTable [slash, 0x62] y.1 = false ∧ vfsFileExists bootTable [slash, 0x62]
        (openCurrentFile bootTable (some [slash, 0x62]) openCreate y.1 (y.2.taskAt (.task 0))).2.1 = true := by
  have run : ∀ n, FileRun bootTable (fun _ _ => True) (emptyFile, oneTask)
      ((fun x => x.2.fileCall bootTable (.openFile (some [slash, 0x61]) 0) x.1)^[n] (emptyFile, oneTask)) := by
    intro n
    induction n with
    | zero => exact .refl
    | succ n ih =>
      rw [Function.iterate_succ_apply']
      exact ih.tail ⟨.call (.openFile (some [slash, 0x61]) 0), trivial, rfl⟩
  refine ⟨_, run 8, by decide +kernel, by decide +kernel, by decide +kernel⟩

end TangPingOS
