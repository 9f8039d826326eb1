import TangPingOS.Process.Moves
import TangPingOS.Process.Syscalls
import TangPingOS.Vfs.Owners

/-! # Writing to the memory filesystem

What the write calls do to a file of the memory filesystem, chunk by chunk. A chunk that
does not fit into the file is refused and ends the call with a failure; the chunks before
it stay.
-/

namespace TangPingOS

open Lib

section Mounts

variable {β : Type} {s : BootState β} {p : Bytes} {blocks : List (Filesystem (BootState β))}

/-- What is needed of a block filesystem: it is mounted at one of the four paths, has no file at its own
    root and does not touch the memory filesystem. -/
structure BlockMount (fs : Filesystem (BootState β)) : Prop where
  path : fs.path ∈ blockPaths
  root : ∀ write, fs.write = some write → ∀ offset bytes s, write [slash] offset bytes s = (none, s)
  apart : ∀ write, fs.write = some write → ∀ path offset bytes s,
    (write path offset bytes s).2.ramfs = s.ramfs

theorem BlockMount.local {fs : Filesystem (BootState β)} (mount : BlockMount fs) (valid : ValidPath p)
    (reached : mountPathMatches fs p) : mountLocalPath fs p = [slash] := by
  have own := validPath_of_blockPaths mount.path
  have real : fs.path ≠ [] := by
    obtain ⟨name, isPath, -⟩ := own
    simp [isPath]
  exact (valid.mounted real own.ne_root reached).2

/-- No block filesystem takes a write to a path of one component. -/
theorem blocks_refuse (mounts : ∀ fs ∈ blocks, BlockMount fs) (valid : ValidPath p) : dispatch (writeCall offset bytes) p blocks s = (none, s) := by
  apply dispatch_refused
  intro fs member f given reached
  obtain ⟨write, has, rfl⟩ := Option.map_eq_some_iff.mp given
  rw [(mounts fs member).local valid reached]
  exact (mounts fs member).root write has offset bytes s

theorem blocks_refuse_existing (mounts : ∀ fs ∈ blocks, BlockMount fs) (valid : ValidPath p) : dispatch (writeExistingCall offset bytes) p blocks s = (none, s) := by
  apply dispatch_refused
  intro fs member f given reached
  obtain ⟨write, has, rfl⟩ := Option.map_eq_some_iff.mp given
  simp only [(mounts fs member).local valid reached]
  split
  · rfl
  · exact (mounts fs member).root write has offset bytes s

/-- A call that only the memory filesystem has at the root, and that the block filesystems refuse. -/
theorem dispatch_ramfs (call : Filesystem (BootState β) → Option (Bytes → BootState β → Option α × BootState β))
    (noDevices : call devfs = none) (noRamdisk : call initrd = none) (given : call ramfs = some f)
    (absolute : p.head? = some slash) (refuse : ∀ s, dispatch call p blocks s = (none, s)) :
    ((dispatch call p (bootTable ++ blocks) s).1.map Prod.snd, (dispatch call p (bootTable ++ blocks) s).2)
      = f p s := by
  obtain ⟨reached, same⟩ := root_reached (rfl : (ramfs (β := β)).path = [slash]) absolute
  have first : dispatch call p (bootTable ++ blocks) s = dispatch call p (ramfs :: initrd :: blocks) s :=
    dispatch_skip (.inl noDevices)
  rw [first]
  cases ran : f p s with
  | mk result s' =>
    cases result with
    | some result =>
      rw [dispatch_done given reached (by rw [same, ran])]
      rfl
    | none =>
      rw [dispatch_failed given reached (by rw [same, ran]), dispatch_skip (.inl noRamdisk), refuse]
      rfl

/-- A write to a path of one component is one to the memory filesystem. -/
theorem vfsWriteFile_ramfs (mounts : ∀ fs ∈ blocks, BlockMount fs) (valid : ValidPath p) (offset : Nat)
    (bytes : Bytes) :
    vfsWriteFile (bootTable ++ blocks) p offset bytes s = onRamfs (ramfsWrite p offset bytes) s :=
  dispatch_ramfs (writeCall offset bytes) (f := fun path => onRamfs (ramfsWrite path offset bytes)) rfl rfl rfl
    valid.head fun _ => blocks_refuse mounts valid

theorem vfsWriteExistingFile_ramfs (mounts : ∀ fs ∈ blocks, BlockMount fs) (valid : ValidPath p)
    (held : (s.ramfs.files p).isSome) (offset : Nat) (bytes : Bytes) :
    vfsWriteExistingFile (bootTable ++ blocks) p offset bytes s = onRamfs (ramfsWrite p offset bytes) s := by
  have there : (ramfsRead p 0 0 s.ramfs).isNone = false := by
    rw [ramfsRead_refines, FileMap.read, Option.isNone_map, Option.isNone_eq_false_iff]
    exact held
  have passed := dispatch_ramfs (s := s) (writeExistingCall offset bytes)
    (f := fun path s => if (ramfsRead path 0 0 s.ramfs).isNone then (none, s)
      else onRamfs (ramfsWrite path offset bytes) s) rfl rfl rfl valid.head
    fun _ => blocks_refuse_existing mounts valid
  rw [there] at passed
  exact passed

/-- The size of a file of the memory filesystem, whatever else is mounted. -/
theorem vfsFileSize_ramfs (absolute : p.head? = some slash) (held : s.ramfs.files p = some content) :
    vfsFileSize (bootTable ++ blocks) p s = some content.length := by
  obtain ⟨reached, same⟩ := root_reached (rfl : (ramfs (β := β)).path = [slash]) absolute
  have first : dispatch sizeCall p (bootTable ++ blocks) s = dispatch sizeCall p (ramfs :: initrd :: blocks) s :=
    dispatch_skip (.inl rfl)
  have size : ramfsSize p s.ramfs = some content.length := by
    rw [ramfsSize_refines, FileMap.size, held, Option.map_some]
  rw [vfsFileSize, first, dispatch_done (f := fun path s => (ramfsSize path s.ramfs, s)) rfl reached
    (by rw [same, size])]
  rfl

end Mounts

/-! ## A chunk for a descriptor -/

theorem Kernel.modifyTask_self (k : Kernel) : (k.modifyTask (.task i) fun _ => k.taskAt (.task i)) = k := by
  have same : (k.tasks.modify i fun _ => k.tasks.getD i {}) = k.tasks := by
    apply List.ext_getElem?
    intro j
    rw [List.getElem?_modify]
    by_cases here : i = j
    · subst here
      cases found : k.tasks[i]? with
      | none => simp
      | some task => simp [found]
    · simp [here]
  simp only [Kernel.modifyTask, Kernel.taskAt, same]

theorem currentVfsFile_spec (opened : currentVfsFile fd t = some (index, file)) :
    t.currentOpenFileForFd fd = some index ∧ file = t.openFile index ∧ file.type = .vfs ∧ file.inUse ∧
      index < t.openFiles.length := by
  obtain ⟨index', found, kind⟩ := Option.bind_eq_some_iff.mp opened
  split at kind
  · rename_i isVfs
    cases kind
    have used : (t.openFile index).inUse := by
      unfold Task.currentOpenFileForFd at found
      split at found
      · cases found
      · exact (Option.filter_eq_some_iff.mp found).2
    refine ⟨found, rfl, isVfs, used, ?_⟩
    by_contra outside
    rw [Task.openFile, List.getD_eq_default _ _ (Nat.not_lt.mp outside)] at used
    cases used
  · cases kind

/-- Only the open file changes; the descriptor refers to it as before. -/
theorem currentVfsFile_set (opened : currentVfsFile fd t = some (index, file))
    (type : file'.type = file.type) (inUse : file'.inUse = file.inUse) :
    currentVfsFile fd (t.setOpenFile index file') = some (index, file') := by
  obtain ⟨found, -, isVfs, used, inside⟩ := currentVfsFile_spec opened
  have stored : (t.setOpenFile index file').openFile index = file' := by
    simp [Task.openFile, Task.setOpenFile, inside]
  have same : (t.setOpenFile index file').currentOpenFileForFd fd = some index := by
    unfold Task.currentOpenFileForFd at found ⊢
    split at found
    · cases found
    · rename_i valid
      rw [if_neg valid, Option.filter_eq_some_iff]
      exact ⟨(Option.filter_eq_some_iff.mp found).1, by rw [stored, inUse, used]⟩
  rw [currentVfsFile, same, Option.bind_some, stored, if_pos (type.trans isVfs)]

section Descriptor

variable {β : Type} {blocks : List (Filesystem (BootState β))} {fd : Int} {s : BootState β} {k : Kernel}
  {i index : Nat} {file : TaskOpenFile} {content : Bytes}

/-- Descriptor `fd` of the running task `i` is open on a file of the memory filesystem. -/
structure OpenOn (fd : Int) (s : BootState β) (k : Kernel) (i index : Nat) (file : TaskOpenFile)
    (content : Bytes) : Prop where
  current : k.current = .task i
  inside : i < k.tasks.length
  opened : currentVfsFile fd (k.taskAt (.task i)) = some (index, file)
  ok : RamfsOk s.ramfs
  held : s.ramfs.files file.path = some content

def writeStart (file : TaskOpenFile) (content : Bytes) : Nat :=
  if file.append then content.length else file.offset

section

variable (on : OpenOn fd s k i index file content)

include on

theorem OpenOn.valid : ValidPath file.path := by
  have found : (findFile file.path s.ramfs).isSome := by
    rw [← Option.isSome_map (f := fun i => (s.ramfs i).content)]
    exact Option.isSome_of_mem on.held
  obtain ⟨slot, found⟩ := Option.isSome_iff_exists.mp found
  obtain ⟨used, named⟩ := findFile_used found
  exact named ▸ on.ok.named slot used

theorem OpenOn.target :
    (if file.append then vfsFileSize (bootTable ++ blocks) file.path s else some file.offset)
      = some (writeStart file content) := by
  unfold writeStart
  split
  · exact vfsFileSize_ramfs on.valid.head on.held
  · rfl

/-- The chunk fits: it is stored behind what was stored before. -/
theorem OpenOn.stored (mounts : ∀ fs ∈ blocks, BlockMount fs)
    (fits : writeStart file content + bytes.length ≤ ramfsFileMaxSize) :
    ∃ s' k', k.writeCurrentFile (bootTable ++ blocks) fd bytes s = (some bytes.length, s', k') ∧
      OpenOn fd s' k' i index { file with offset := writeStart file content + bytes.length }
        (overwrite content (writeStart file content) bytes) ∧
      s'.ramfs.files = Function.update s.ramfs.files file.path
        (some (overwrite content (writeStart file content) bytes)) ∧
      k'.machine = k.machine := by
  have editable : FileMap.Editable ramfsLimits s.ramfs.files file.path := .inl (by rw [on.held]; rfl)
  obtain ⟨r, written, ok, files⟩ := ramfsWrite_accepted on.ok on.valid fits editable
  rw [on.held, Option.getD_some] at files
  have small : wrap64 (writeStart file content + bytes.length) = writeStart file content + bytes.length := by
    unfold ramfsFileMaxSize at fits
    exact Nat.mod_eq_of_lt (by omega)
  have passed := vfsWriteExistingFile_ramfs (s := s) mounts on.valid (by rw [on.held]; rfl)
    (writeStart file content) bytes
  rw [onRamfs, written] at passed
  refine ⟨{ s with ramfs := r }, k.modifyTask (.task i) fun _ => (k.taskAt (.task i)).setOpenFile index
    { file with offset := writeStart file content + bytes.length }, ?_, ?_, files, rfl⟩
  · simp only [Kernel.writeCurrentFile, on.current, writeCurrentFile, on.opened, on.target, passed, small]
  · refine ⟨on.current, ?_, ?_, ok, ?_⟩
    · rw [Kernel.length_modifyTask]
      exact on.inside
    · rw [Kernel.taskAt_modifyTask on.inside, if_pos rfl]
      exact currentVfsFile_set on.opened rfl rfl
    · rw [files, Function.update_self]

theorem OpenOn.refused (mounts : ∀ fs ∈ blocks, BlockMount fs)
    (full : ¬writeStart file content + bytes.length ≤ ramfsFileMaxSize) :
    k.writeCurrentFile (bootTable ++ blocks) fd bytes s = (none, s, k) := by
  have refused := ramfsWrite_refused on.ok (p := file.path) (writeStart file content) bytes
    fun accepted => full accepted.2.1
  have passed := vfsWriteExistingFile_ramfs (s := s) mounts on.valid (by rw [on.held]; rfl)
    (writeStart file content) bytes
  rw [onRamfs, refused] at passed
  simp only [Kernel.writeCurrentFile, on.current, writeCurrentFile, on.opened, on.target, passed,
    Kernel.modifyTask_self]

theorem OpenOn.notTty : k.currentFdIsTty fd = false := by
  obtain ⟨found, same, isVfs, -, -⟩ := currentVfsFile_spec on.opened
  simp only [Kernel.currentFdIsTty, on.current, currentFdIsTty, found]
  unfold Task.currentOpenFileForFd at found
  split at found
  · cases found
  · rename_i valid
    have inUse : ((k.taskAt (.task i)).file fd.toNat).inUse := by
      unfold Task.indexOf at found
      by_contra unused
      simp [unused] at found
    simp only [valid, inUse, ← same, isVfs]
    rfl

end

/-! ## The loop -/

/-- The states inside a call that has stored `done` bytes of the buffer. -/
structure Writing (s : BootState β) (k : Kernel) (i index : Nat) (fd : Int) (file : TaskOpenFile)
    (content bytes : Bytes) (done : Nat) (t : BootState β × Kernel) : Prop where
  machine : t.2.machine = k.machine
  progress : (done = 0 ∧ t = (s, k)) ∨
    (0 < done ∧ writeStart file content + done ≤ ramfsFileMaxSize ∧
      OpenOn fd t.1 t.2 i index { file with offset := writeStart file content + done }
        (overwrite content (writeStart file content) (bytes.take done)) ∧
      t.1.ramfs.files = Function.update s.ramfs.files file.path
        (some (overwrite content (writeStart file content) (bytes.take done))))

variable {buf len : Nat}

/-- In such a state the descriptor is where the next byte of the buffer goes. -/
theorem Writing.next (on : OpenOn fd s k i index file content)
    (writing : Writing s k i index fd file content bytes done t) (within : done ≤ bytes.length) :
    ∃ file' content', OpenOn fd t.1 t.2 i index file' content' ∧
      writeStart file' content' = writeStart file content + done ∧
      (∀ offset, { file' with offset := offset } = { file with offset := offset }) ∧
      Function.update t.1.ramfs.files file.path = Function.update s.ramfs.files file.path ∧
      ∀ count, done + count ≤ bytes.length →
        overwrite content' (writeStart file content + done) ((bytes.drop done).take count)
          = overwrite content (writeStart file content) (bytes.take (done + count)) := by
  obtain ⟨rfl, rfl⟩ | ⟨positive, -, on', files⟩ := writing.progress
  · refine ⟨file, content, on, rfl, fun _ => rfl, rfl, ?_⟩
    intro count _
    rw [Nat.add_zero, Nat.zero_add, List.drop_zero]
  · refine ⟨_, _, on', ?_, fun _ => rfl, ?_, ?_⟩
    · unfold writeStart
      cases file.append with
      | true =>
        simp only [if_true, length_overwrite, List.length_take_of_le within]
        omega
      | false => rfl
    · funext content'
      rw [files, Function.update_idem]
    · intro count fits
      exact overwrite_parts fits

/-- The next chunk of a buffer that can be read. -/
theorem copyFromUser_chunk (readable : Readable buf len m) (real : 0 < buf) (some_ : 0 < size) (more : done < len) :
    ∃ count chunk, min size (len - done) = count ∧ 0 < count ∧ done + count ≤ len ∧ chunk.length = count ∧
      ((userBytes buf len m).drop done).take count = chunk ∧
      copyFromUser (wrap64 (buf + done)) (min size (len - done)) m = some chunk := by
  refine ⟨_, _, rfl, by omega, by omega, ?_, rfl, copyFromUser_part readable (by omega) (by omega)⟩
  rw [List.length_take, List.length_drop, length_userBytes]
  omega

/-- A round of the loop of `syscall_write`. -/
theorem OpenOn.round (on : OpenOn fd s k i index file content) (mounts : ∀ fs ∈ blocks, BlockMount fs)
    (readable : Readable buf len k.machine) (real : 0 < buf) :
    ChunkStep syscallWriteChunkSize len
      (fun written toCopy (t : BootState β × Kernel) => copyFromUser (wrap64 (buf + written)) toCopy t.2.machine)
      (fun _ chunk t => t.2.writeCurrentFile (bootTable ++ blocks) fd chunk t.1)
      (Writing s k i index fd file content (userBytes buf len k.machine))
      (fun done => writeStart file content + done + min syscallWriteChunkSize (len - done)
        ≤ ramfsFileMaxSize) := by
  intro done t writing more
  obtain ⟨count, chunk, isCount, positive, within, size, isChunk, fetched⟩ :=
    copyFromUser_chunk readable real (by decide : 0 < syscallWriteChunkSize) more
  rw [← writing.machine] at fetched
  have length := length_userBytes buf len k.machine
  obtain ⟨file', content', on', start, sameFile, sameFiles, parts⟩ := writing.next on (by omega)
  by_cases fits : writeStart file content + done + count ≤ ramfsFileMaxSize
  · left
    have room : writeStart file' content' + chunk.length ≤ ramfsFileMaxSize := by
      rw [start, size]
      exact fits
    obtain ⟨s₁, k₁, stored, on₁, files, machine⟩ := on'.stored mounts room
    rw [size] at stored
    rw [start, size, sameFile, ← isChunk, parts count (by omega)] at on₁
    have samePath : file'.path = file.path := by
      have same := congrArg TaskOpenFile.path (sameFile 0)
      exact same
    rw [start, ← isChunk, parts count (by omega), samePath, sameFiles] at files
    refine ⟨(s₁, k₁), chunkRound_done fetched (by rw [isCount]; exact stored), machine.trans writing.machine,
      .inr ?_⟩
    rw [isCount, ← Nat.add_assoc]
    exact ⟨by omega, fits, on₁, files⟩
  · right
    have full : ¬writeStart file' content' + chunk.length ≤ ramfsFileMaxSize := by
      rw [start, size]
      exact fits
    have refused := on'.refused mounts full
    rw [← isCount] at fits
    exact ⟨chunkRound_refused fetched refused, fits⟩

/-- What a call comes to whose buffer can be read: all of the buffer is stored, or the file is full
    before a chunk. -/
theorem OpenOn.syscallWrite {fd} (on : OpenOn (asInt fd) s k i index file content)
    (mounts : ∀ fs ∈ blocks, BlockMount fs) (valid : usercopyValidateRange buf len false k.machine)
    (real : 0 < buf) :
    (∃ t, TangPingOS.syscallWrite (bootTable ++ blocks) fd buf len s k = (some len, t) ∧
      Writing s k i index (asInt fd) file content (userBytes buf len k.machine) len t) ∨
    (∃ round t, TangPingOS.syscallWrite (bootTable ++ blocks) fd buf len s k = (none, t) ∧
      Writing s k i index (asInt fd) file content (userBytes buf len k.machine)
        (syscallWriteChunkSize * round) t ∧
      syscallWriteChunkSize * round < len ∧ ramfsFileMaxSize < writeStart file content +
        (syscallWriteChunkSize * round + min syscallWriteChunkSize (len - syscallWriteChunkSize * round))) := by
  have step := on.round mounts (usercopyValidateRange_readable valid) real
  have start : Writing s k i index (asInt fd) file content (userBytes buf len k.machine) 0 (s, k) :=
    ⟨rfl, .inl ⟨rfl, rfl⟩⟩
  have called : TangPingOS.syscallWrite (bootTable ++ blocks) fd buf len s k
      = chunks syscallWriteChunkSize len
        (fun written toCopy (t : BootState β × Kernel) => copyFromUser (wrap64 (buf + written)) toCopy t.2.machine)
        (fun _ chunk t => t.2.writeCurrentFile (bootTable ++ blocks) (asInt fd) chunk t.1) (len + 1) 0 (s, k) := by
    simp [TangPingOS.syscallWrite, on.notTty, valid]
  rw [called]
  obtain done | ⟨stop, t, ran, writing, inside, refused, round, rfl⟩ :=
    chunks_spec step (by decide) (show len < len + 1 + 0 by omega) (Nat.zero_le len) start
  · exact .inl done
  · rw [Nat.zero_add] at writing inside refused
    exact .inr ⟨round, t, ran, writing, inside, by omega⟩

end Descriptor

/-! ## Failed calls -/

theorem chunks_null {store : Nat → List α → τ → Option Nat × τ}
    (some_ : 0 < len) (null : fetch 0 (min size len) t = none) :
    chunks size len fetch store (rounds + 1) 0 t = (none, t) := by
  rw [chunks, if_neg (by omega)]
  simp [chunkRound, null]

theorem copyFromUser_null (some_ : 0 < count) : copyFromUser 0 count m = none := by
  simp [copyFromUser, Nat.ne_of_gt some_]

section Failures

variable {β : Type} {blocks : List (Filesystem (BootState β))} {s : BootState β} {k : Kernel} {buf len : Nat}

/-- The buffer can be read, its first chunk fits into the file, and the whole of it does not. -/
def TornWrite (file : TaskOpenFile) (content : Bytes) (buf len : Nat) (m : Machine) : Prop :=
  0 < buf ∧ usercopyValidateRange buf len false m ∧
    writeStart file content + syscallWriteChunkSize ≤ ramfsFileMaxSize ∧
    ramfsFileMaxSize < writeStart file content + len

theorem syscallWrite_null (some_ : 0 < len) (on : OpenOn (asInt fd) s k i index file content) :
    syscallWrite (bootTable ++ blocks) fd 0 len s k = (none, s, k) := by
  simp only [syscallWrite, on.notTty]
  cases usercopyValidateRange 0 len false k.machine with
  | false => rfl
  | true => exact chunks_null some_ (copyFromUser_null (by unfold syscallWriteChunkSize; omega))

/-- A failed write to a descriptor changes nothing just if it is not torn. -/
theorem syscallWrite_failure
    (on : OpenOn (asInt fd) s k i index file content) (mounts : ∀ fs ∈ blocks, BlockMount fs) :
    ((syscallWrite (bootTable ++ blocks) fd buf len s k).1 = none →
      (syscallWrite (bootTable ++ blocks) fd buf len s k).2.1.ramfs.files = s.ramfs.files ∧
      (((syscallWrite (bootTable ++ blocks) fd buf len s k).2.2.taskAt (.task i)).openFile index).offset
        = file.offset) ↔ ¬TornWrite file content buf len k.machine := by
  have offset : ((k.taskAt (.task i)).openFile index).offset = file.offset := by
    rw [(currentVfsFile_spec on.opened).2.1]
  by_cases real : 0 < buf
  · cases valid : usercopyValidateRange buf len false k.machine with
    | false =>
      have refused : syscallWrite (bootTable ++ blocks) fd buf len s k = (none, s, k) := by
        simp [syscallWrite, on.notTty, valid]
      rw [refused]
      refine iff_of_true (fun _ => ⟨rfl, offset⟩) fun torn => ?_
      rw [torn.2.1] at valid
      cases valid
    | true =>
      obtain ⟨t, ran, writing⟩ | ⟨round, t, ran, writing, inside, full⟩ := on.syscallWrite mounts valid real
      · rw [ran]
        refine iff_of_true nofun fun torn => ?_
        obtain ⟨-, -, first, whole⟩ := torn
        obtain ⟨none, -⟩ | ⟨-, fits, -⟩ := writing.progress
        · omega
        · omega
      · rw [ran]
        obtain ⟨none, rfl⟩ | ⟨positive, fits, on', files⟩ := writing.progress
        · refine iff_of_true (fun _ => ⟨rfl, offset⟩) fun torn => ?_
          obtain ⟨-, -, first, whole⟩ := torn
          omega
        · -- the first chunks were stored: the file has grown, or the offset has moved
          have once : syscallWriteChunkSize ≤ syscallWriteChunkSize * round :=
            Nat.le_mul_of_pos_right _ (Nat.pos_of_mul_pos_left positive)
          refine iff_of_false (fun unchanged => ?_) fun untorn => untorn ⟨real, valid, by omega, by omega⟩
          obtain ⟨sameFiles, sameOffset⟩ := unchanged rfl
          rw [← (currentVfsFile_spec on'.opened).2.1] at sameOffset
          have same : overwrite content (writeStart file content)
              ((userBytes buf len k.machine).take (syscallWriteChunkSize * round)) = content := by
            have here := congrFun (files.symm.trans sameFiles) file.path
            rw [Function.update_self, on.held] at here
            exact Option.some.inj here
          have length := congrArg List.length same
          rw [length_overwrite, List.length_take_of_le (by rw [length_userBytes]; omega)] at length
          unfold writeStart at sameOffset length
          cases append : file.append with
          | true =>
            rw [if_pos append] at length
            omega
          | false =>
            rw [if_neg (by simp [append])] at sameOffset
            simp only at sameOffset
            omega
  · obtain rfl : buf = 0 := by omega
    refine iff_of_true ?_ fun torn => real torn.1
    rcases Nat.eq_zero_or_pos len with rfl | some_
    · intro failed
      simp [syscallWrite, on.notTty, usercopyValidateRange, chunks] at failed
    · rw [syscallWrite_null some_ on]
      exact fun _ => ⟨rfl, offset⟩

variable {p bytes : Bytes} {offset : Nat}

/-- The states inside `syscall_write_file`, with `done` bytes stored. -/
structure WritingFile (s : BootState β) (p bytes : Bytes) (offset done : Nat) (t : BootState β) : Prop where
  ok : RamfsOk t.ramfs
  progress : (done = 0 ∧ t = s) ∨
    (0 < done ∧ offset + done ≤ ramfsFileMaxSize ∧ FileMap.Editable ramfsLimits s.ramfs.files p ∧
      t.ramfs.files = Function.update s.ramfs.files p
        (some (overwrite ((s.ramfs.files p).getD []) offset (bytes.take done))))

/-- The file can be written as before, and writing the next bytes is writing all of them. -/
theorem WritingFile.next (writing : WritingFile s p bytes offset done t) :
    (FileMap.Editable ramfsLimits t.ramfs.files p ↔ FileMap.Editable ramfsLimits s.ramfs.files p) ∧
      ∀ count, done + count ≤ bytes.length →
        Function.update t.ramfs.files p (some (overwrite ((t.ramfs.files p).getD []) (offset + done)
          ((bytes.drop done).take count)))
        = Function.update s.ramfs.files p
          (some (overwrite ((s.ramfs.files p).getD []) offset (bytes.take (done + count)))) := by
  obtain ⟨rfl, rfl⟩ | ⟨positive, -, editable, files⟩ := writing.progress
  · refine ⟨Iff.rfl, ?_⟩
    intro count _
    rw [Nat.add_zero, Nat.zero_add, List.drop_zero]
  · rw [files, Function.update_self, Option.getD_some]
    refine ⟨iff_of_true (.inl ?_) editable, ?_⟩
    · rw [Function.update_self]
      rfl
    · intro count within
      rw [Function.update_idem, overwrite_parts within]

section

variable (mounts : ∀ fs ∈ blocks, BlockMount fs)

include mounts

/-- A round of the loop of `syscall_write_file`. -/
theorem writeFile_round (valid : ValidPath p)
    (word : offset < 2 ^ 64) (readable : Readable buf len k.machine) (real : 0 < buf) :
    ChunkStep syscallReadChunkSize len
      (fun written toCopy _ => copyFromUser (wrap64 (buf + written)) toCopy k.machine)
      (fun written chunk s => vfsWriteFile (bootTable ++ blocks) p (wrap64 (offset + written)) chunk s)
      (WritingFile s p (userBytes buf len k.machine) offset)
      (fun done => offset + done + min syscallReadChunkSize (len - done) ≤ ramfsFileMaxSize ∧
        FileMap.Editable ramfsLimits s.ramfs.files p) := by
  intro done t writing more
  obtain ⟨count, chunk, isCount, positive, within, size, isChunk, fetched⟩ :=
    copyFromUser_chunk readable real (by decide : 0 < syscallReadChunkSize) more
  have length := length_userBytes buf len k.machine
  have there : wrap64 (offset + done) = offset + done := by
    have low : done = 0 ∨ offset + done ≤ ramfsFileMaxSize := by
      obtain ⟨none, -⟩ | ⟨-, fits, -⟩ := writing.progress
      · exact .inl none
      · exact .inr fits
    unfold ramfsFileMaxSize at low
    exact Nat.mod_eq_of_lt (by omega)
  have passed := vfsWriteFile_ramfs (s := t) mounts valid (offset + done) chunk
  obtain ⟨editable, parts⟩ := writing.next
  by_cases fits : offset + done + count ≤ ramfsFileMaxSize ∧ FileMap.Editable ramfsLimits s.ramfs.files p
  · left
    have room : offset + done + chunk.length ≤ ramfsFileMaxSize := by
      rw [size]
      exact fits.1
    obtain ⟨r, written, ok, files⟩ := ramfsWrite_accepted writing.ok valid room (editable.mpr fits.2)
    rw [onRamfs, written, size] at passed
    rw [← isChunk, parts count (by omega)] at files
    refine ⟨{ t with ramfs := r }, chunkRound_done fetched (by rw [isCount, there]; exact passed), ok, .inr ?_⟩
    rw [isCount, ← Nat.add_assoc]
    exact ⟨by omega, fits.1, fits.2, files⟩
  · right
    have refused := ramfsWrite_refused writing.ok (p := p) (offset + done) chunk
      fun accepted => fits ⟨by rw [← size]; exact accepted.2.1, editable.mp accepted.2.2⟩
    rw [onRamfs, refused] at passed
    rw [← isCount] at fits
    exact ⟨chunkRound_refused fetched (by rw [there]; exact passed), fits⟩

/-- A path that the memory filesystem does not take leaves it alone. -/
theorem vfsWriteFile_elsewhere {chunk : Bytes} (ok : RamfsOk s.ramfs) (invalid : ¬ValidPath p)
    (same : t.ramfs = s.ramfs) :
    (vfsWriteFile (bootTable ++ blocks) p offset chunk t).2.ramfs = s.ramfs := by
  change (dispatch (writeCall offset chunk) p (bootTable ++ blocks) t).2.ramfs = s.ramfs
  refine dispatch_keeps (P := fun t : BootState β => t.ramfs = s.ramfs) ?_ same
  intro fs member f given reached t same
  rcases List.mem_append.mp member with boot | later
  · simp only [bootTable, List.mem_cons, List.not_mem_nil, or_false] at boot
    rcases boot with rfl | rfl | rfl
    · cases given
    · obtain ⟨write, has, rfl⟩ := Option.map_eq_some_iff.mp given
      cases has
      have refused := ramfsWrite_refused (s := t.ramfs) (same ▸ ok) (p := p) offset chunk
        fun accepted => invalid accepted.1
      have whole : mountLocalPath (ramfs (β := β)) p = p := rfl
      simp only [whole, onRamfs, refused]
      exact same
    · cases given
  · obtain ⟨write, has, rfl⟩ := Option.map_eq_some_iff.mp given
    rw [(mounts fs later).apart write has]
    exact same

/-- The path and the buffer can be read, the memory filesystem takes the first chunk but not the whole, and
    the chunks that it takes change the file. -/
def TornFileWrite (path offset buffer len : Nat) (s : BootState β) (m : Machine) : Prop :=
  ∃ p, copyStringFromUser path syscallPathMax m = some p ∧ ValidPath p ∧
    FileMap.Editable ramfsLimits s.ramfs.files p ∧
    0 < buffer ∧ usercopyValidateRange buffer len false m ∧
    offset + syscallReadChunkSize ≤ ramfsFileMaxSize ∧ ramfsFileMaxSize < offset + len ∧
    s.ramfs.files p ≠ some (overwrite ((s.ramfs.files p).getD []) offset ((userBytes buffer len m).take
      (syscallReadChunkSize * ((ramfsFileMaxSize - offset) / syscallReadChunkSize))))

/-- What `syscall_write_file` comes to on a path of the memory filesystem. -/
theorem syscallWriteFile_spec (ok : RamfsOk s.ramfs)
    (copied : copyStringFromUser path syscallPathMax k.machine = some p) (valid : ValidPath p)
    (word : offset < 2 ^ 64) (range : usercopyValidateRange buf len false k.machine) (real : 0 < buf) :
    (∃ t, syscallWriteFile (bootTable ++ blocks) path offset buf len s k = (some len, t) ∧
      WritingFile s p (userBytes buf len k.machine) offset len t) ∨
    (∃ round t, syscallWriteFile (bootTable ++ blocks) path offset buf len s k = (none, t) ∧
      WritingFile s p (userBytes buf len k.machine) offset (syscallReadChunkSize * round) t ∧
      syscallReadChunkSize * round < len ∧
      ¬(offset + syscallReadChunkSize * round + min syscallReadChunkSize (len - syscallReadChunkSize * round)
          ≤ ramfsFileMaxSize ∧ FileMap.Editable ramfsLimits s.ramfs.files p)) := by
  have step := writeFile_round (s := s) (k := k) mounts valid word (usercopyValidateRange_readable range) real
  have start : WritingFile s p (userBytes buf len k.machine) offset 0 s := ⟨ok, .inl ⟨rfl, rfl⟩⟩
  have called : syscallWriteFile (bootTable ++ blocks) path offset buf len s k
      = chunks syscallReadChunkSize len
        (fun written toCopy _ => copyFromUser (wrap64 (buf + written)) toCopy k.machine)
        (fun written chunk s => vfsWriteFile (bootTable ++ blocks) p (wrap64 (offset + written)) chunk s)
        (len + 1) 0 s := by
    simp [syscallWriteFile, copied, range]
  rw [called]
  obtain done | ⟨stop, t, ran, writing, inside, refused, round, rfl⟩ :=
    chunks_spec step (by decide) (show len < len + 1 + 0 by omega) (Nat.zero_le len) start
  · exact .inl done
  · rw [Nat.zero_add] at writing inside refused
    exact .inr ⟨round, t, ran, writing, inside, refused⟩

/-- A failed write to a path changes nothing just if it is not torn. -/
theorem syscallWriteFile_failure (ok : RamfsOk s.ramfs) (word : offset < 2 ^ 64) :
    ((syscallWriteFile (bootTable ++ blocks) path offset buf len s k).1 = none →
      (syscallWriteFile (bootTable ++ blocks) path offset buf len s k).2.ramfs.files = s.ramfs.files) ↔
    ¬TornFileWrite path offset buf len s k.machine := by
  cases copied : copyStringFromUser path syscallPathMax k.machine with
  | none =>
    have refused : syscallWriteFile (bootTable ++ blocks) path offset buf len s k = (none, s) := by
      simp [syscallWriteFile, copied]
    rw [refused]
    refine iff_of_true (fun _ => rfl) ?_
    rintro ⟨p, copied', -⟩
    cases copied.symm.trans copied'
  | some p =>
    have isPath : ∀ {q}, copyStringFromUser path syscallPathMax k.machine = some q → q = p :=
      fun copied' => Option.some.inj (copied'.symm.trans copied)
    by_cases valid : ValidPath p
    · by_cases reads : 0 < buf ∧ usercopyValidateRange buf len false k.machine
      · obtain ⟨t, ran, writing⟩ | ⟨round, t, ran, writing, inside, refused⟩ :=
          syscallWriteFile_spec (s := s) mounts ok copied valid word reads.2 reads.1
        · rw [ran]
          refine iff_of_true nofun ?_
          rintro ⟨q, -, -, -, -, -, first, whole, -⟩
          obtain ⟨none, -⟩ | ⟨-, fits, -⟩ := writing.progress
          · omega
          · omega
        · rw [ran]
          obtain ⟨none, rfl⟩ | ⟨positive, fits, editable, files⟩ := writing.progress
          · refine iff_of_true (fun _ => rfl) ?_
            rintro ⟨q, copied', -, editable, -, -, first, -⟩
            rw [isPath copied'] at editable
            exact refused ⟨by omega, editable⟩
          · have next : ¬offset + syscallReadChunkSize * round
                + min syscallReadChunkSize (len - syscallReadChunkSize * round) ≤ ramfsFileMaxSize :=
              fun room => refused ⟨room, editable⟩
            have isRound : round = (ramfsFileMaxSize - offset) / syscallReadChunkSize := by
              unfold ramfsFileMaxSize syscallReadChunkSize at fits next ⊢
              omega
            rw [isRound] at files
            constructor
            · rintro unchanged ⟨q, copied', -, -, -, -, -, -, changed⟩
              rw [isPath copied'] at changed
              have here := congrFun (files.symm.trans (unchanged rfl)) p
              rw [Function.update_self] at here
              exact changed here.symm
            · intro untorn _
              rw [files]
              by_contra changed
              refine untorn ⟨p, copied, valid, editable, reads.1, reads.2, ?_, ?_, ?_⟩
              · unfold syscallReadChunkSize at fits positive ⊢
                omega
              · omega
              · intro same
                rw [← same, Function.update_eq_self] at changed
                exact changed rfl
      · refine iff_of_true ?_ ?_
        · cases range : usercopyValidateRange buf len false k.machine with
          | false =>
            have refused : syscallWriteFile (bootTable ++ blocks) path offset buf len s k = (none, s) := by
              simp [syscallWriteFile, copied, range]
            rw [refused]
            exact fun _ => rfl
          | true =>
            obtain rfl : buf = 0 := by
              by_contra real
              exact reads ⟨Nat.pos_of_ne_zero real, range⟩
            rcases Nat.eq_zero_or_pos len with rfl | some_
            · intro failed
              simp [syscallWriteFile, copied, usercopyValidateRange, chunks] at failed
            · have refused : syscallWriteFile (bootTable ++ blocks) path offset 0 len s k = (none, s) := by
                simp only [syscallWriteFile, copied, range]
                exact chunks_null some_ (copyFromUser_null (by unfold syscallReadChunkSize; omega))
              rw [refused]
              exact fun _ => rfl
        · rintro ⟨q, -, -, -, real, range, -⟩
          exact reads ⟨real, range⟩
    · refine iff_of_true (fun _ => ?_) ?_
      · have kept : (syscallWriteFile (bootTable ++ blocks) path offset buf len s k).2.ramfs = s.ramfs := by
          simp only [syscallWriteFile, copied]
          split
          · rfl
          · exact chunks_keep (P := fun t : BootState β => t.ramfs = s.ramfs)
              (fun done chunk t same => vfsWriteFile_elsewhere mounts ok valid same) rfl
        rw [kept]
      · rintro ⟨q, copied', taken, -⟩
        exact valid (isPath copied' ▸ taken)

end

/-- Write calls that fail change nothing just if they are not torn: the file takes the first chunk, but not
    the whole. -/
theorem failed_writes_iff (mounts : ∀ fs ∈ blocks, BlockMount fs) (ok : RamfsOk s.ramfs) :
    (∀ fd i index file content buf len, OpenOn (asInt fd) s k i index file content →
      (((syscallWrite (bootTable ++ blocks) fd buf len s k).1 = none →
        (syscallWrite (bootTable ++ blocks) fd buf len s k).2.1.ramfs.files = s.ramfs.files ∧
        (((syscallWrite (bootTable ++ blocks) fd buf len s k).2.2.taskAt (.task i)).openFile index).offset
          = file.offset) ↔ ¬TornWrite file content buf len k.machine)) ∧
    (∀ path offset buf len, offset < 2 ^ 64 →
      (((syscallWriteFile (bootTable ++ blocks) path offset buf len s k).1 = none →
        (syscallWriteFile (bootTable ++ blocks) path offset buf len s k).2.ramfs.files = s.ramfs.files) ↔
      ¬TornFileWrite path offset buf len s k.machine)) :=
  ⟨fun _ _ _ _ _ _ _ on => syscallWrite_failure on mounts,
    fun _ _ _ _ word => syscallWriteFile_failure mounts ok word⟩

end Failures

/-- The memory filesystem has one file, `/a`, with nothing in it. -/
def emptyFile : BootState Unit where
  ramfs := (ramfsTruncate [slash, 0x61] 0
    (ramfsInit fun _ => { inUse := false, name := [], data := Buf.zero, size := 0 })).2
  initrd := []
  block := ()

def openedAt (offset : Nat) (append : Bool) : TaskOpenFile :=
  { inUse := true, refCount := 1, type := .vfs, path := [slash, 0x61], offset := offset, append := append }

/-- The running task has the file open. Every entry of page `p` leads to page `p + 1`. -/
def holding (file : TaskOpenFile) : Kernel where
  machine := { blankMachine with mem := fun p _ => (p + 1) * 4096 + 7, cr3 := 4096 }
  tasks :=
    [{ pid := 1
       files := (List.replicate taskMaxFds {}).set 3 { inUse := true, openFileIndex := 0 }
       openFiles := (List.replicate taskMaxOpenFiles {}).set 0 file }]
  current := .task 0
  tickCount := 1
  nextPid := 2
  ready := true

/-- The task stands near the end of what fits. -/
def writer : Kernel := holding (openedAt 896 false)

theorem emptyFile_ok : RamfsOk emptyFile.ramfs := (ramfsTruncate_refines ramfsOk_init 0).1

theorem holding_open (offset : Nat) (append : Bool) :
    OpenOn (asInt 3) emptyFile (holding (openedAt offset append)) 0 0 (openedAt offset append) [] where
  current := rfl
  inside := Nat.one_pos
  opened := rfl
  ok := emptyFile_ok
  held := show emptyFile.ramfs.files [slash, 0x61] = some [] by decide +kernel

theorem noBlockMounts : ∀ fs ∈ ([] : List (Filesystem (BootState Unit))), BlockMount fs :=
  fun _ member => nomatch member

/-- The file refuses the only chunk of a write over its end, and nothing has changed. -/
theorem failed_write_over_end :
    (syscallWrite (bootTable ++ []) 3 0x10000 5 emptyFile (holding (openedAt 1020 false))).1 = none ∧
      (syscallWrite (bootTable ++ []) 3 0x10000 5 emptyFile (holding (openedAt 1020 false))).2.1.ramfs.files
        = emptyFile.ramfs.files := by
  have failed : (syscallWrite (bootTable ++ []) 3 0x10000 5 emptyFile (holding (openedAt 1020 false))).1 = none := by
    decide +kernel
  have unchanged := ((failed_writes_iff noBlockMounts emptyFile_ok).1 3 0 0 _ [] 0x10000 5
    (holding_open 1020 false)).mpr fun torn => absurd torn.2.2.1 (by decide +kernel)
  exact ⟨failed, (unchanged failed).1⟩

/-- One byte more than fits is refused, with the bytes before it stored. -/
theorem torn_write :
    OpenOn (asInt 3) emptyFile writer 0 0 (openedAt 896 false) [] ∧
    (syscallWrite (bootTable ++ []) 3 0x10000 129 emptyFile writer).1 = none ∧
    ¬((syscallWrite (bootTable ++ []) 3 0x10000 129 emptyFile writer).2.1.ramfs.files = emptyFile.ramfs.files ∧
      (((syscallWrite (bootTable ++ []) 3 0x10000 129 emptyFile writer).2.2.taskAt (.task 0)).openFile 0).offset
        = 896) := by
  have on : OpenOn (asInt 3) emptyFile writer 0 0 (openedAt 896 false) [] := holding_open 896 false
  refine ⟨on, Classical.not_imp.mp fun unchanged => ?_⟩
  apply (syscallWrite_failure on noBlockMounts).mp unchanged
  refine ⟨by decide, by decide +kernel, by decide, by decide⟩

end TangPingOS
