import TangPingOS.Exfat.Steps

/-! # Runs of file operations

Every call of `blockfs_write`, `blockfs_truncate` and `blockfs_unlink` on a
healthy device is a sequence of steps, so what every step keeps holds in every
state a run reaches.
-/

namespace TangPingOS

open Lib

/-- The calls that change a mounted volume. -/
inductive FileOp where
  | write (path : Bytes) (offset : Nat) (data : Bytes)
  | truncate (path : Bytes) (size : Nat)
  | unlink (path : Bytes)

def FileOp.run (m : Mount) (fs : Fs) : FileOp → Fs
  | .write path offset data => (blockfsWrite m fs path offset data).1
  | .truncate path size => (blockfsTruncate m fs path size).1
  | .unlink path => (blockfsUnlink m fs path).1

def FileOp.path : FileOp → Bytes
  | .write path _ _ => path
  | .truncate path _ => path
  | .unlink path => path

def runOps (m : Mount) (fs : Fs) (ops : List FileOp) : Fs := ops.foldl (FileOp.run m) fs

variable {path : Bytes} {d₀ : Device} {fs fs' : Fs} {m : Mount} {i required : Nat} {cells : Nat → List Nat}
  {e : RootEntry} {w w' : World}

theorem FileOp.run_unready (unready : m.exfat.commit.ready = false) (op : FileOp) : op.run m fs = fs := by
  cases op with
  | write path offset data =>
    show (blockfsWrite m fs path offset data).1 = fs
    unfold blockfsWrite
    split
    · split
      · rfl
      · simp [blockfsWriteNewFile, unready]
    · split
      · rfl
      · simp only [createExfatTestFileWithClusters, unready]
        split
        · rfl
        · rfl
  | truncate path size =>
    show (blockfsTruncate m fs path size).1 = fs
    simp [blockfsTruncate, unready]
  | unlink path =>
    show (blockfsUnlink m fs path).1 = fs
    simp [blockfsUnlink, unlinkExfatTestFile, unready]

theorem runOps_unready (unready : m.exfat.commit.ready = false) : runOps m fs ops = fs := by
  induction ops with
  | nil => rfl
  | cons op ops ih =>
    rw [runOps, List.foldl_cons, FileOp.run_unready unready]
    exact ih

abbrev Steps (m : Mount) (d₀ : Device) : World → World → Prop := Relation.ReflTransGen (Step m d₀)

theorem Table.steps (ground : Ground m d₀)
    (steps : Steps m d₀ w w') (table : Table m d₀ w.fs w.cells) : Table m d₀ w'.fs w'.cells := by
  induction steps with
  | refl => exact table
  | tail _ step ih => exact Table.step ground step ih

/-- A step that creates no file. -/
inductive Edit (m : Mount) (d₀ : Device) : World → World → Prop where
  | extend {w : World} {i required last : Nat} {e : RootEntry} {kept new : List Nat}
      (atIndex : w.fs.rootEntries[i]? = some e) (writable : e.writable)
      (begins : kept <+: w.cells i) (isLast : kept.getLast? = some last)
      (found : findExfatFreeClusterRun m w.fs.dev (required - kept.length) = some new)
      (few : required ≤ 3) (grows : e.capacity ≤ required * m.clusterSize) :
      Edit m d₀ w
        ⟨⟨w.fs.rootEntries.set i { e with capacity := required * m.clusterSize },
            extendedDevice m d₀ last new w.fs.dev⟩,
          Function.update w.cells i (kept ++ new)⟩
  | unlink {w : World} {i : Nat} {e : RootEntry} {kept : List Nat}
      (atIndex : w.fs.rootEntries[i]? = some e) (writable : e.writable)
      (begins : kept <+: w.cells i)
      (inUse : ((Patch.deleteEntries e.directoryByteOffset 3).apply
        (w.fs.dev.data e.directoryLba)).isSome) :
      Edit m d₀ w
        ⟨⟨w.fs.rootEntries.set i {}, unlinkedDevice m d₀ e kept w.fs.dev⟩,
          Function.update w.cells i []⟩
  | data {w : World} (i : Nat) {d' : Device} (only : DataOnly m (w.cells i) w.fs.dev d') :
      Edit m d₀ w ⟨⟨w.fs.rootEntries, d'⟩, w.cells⟩
  | resize {w : World} {i size : Nat} {e : RootEntry} (atIndex : w.fs.rootEntries[i]? = some e)
      (writable : e.writable) (fits : size ≤ e.capacity) :
      Edit m d₀ w
        ⟨⟨w.fs.rootEntries.set i { e with size := size }, w.fs.dev.put e.directoryLba
            (resizedEntrySet (w.fs.dev.data e.directoryLba) e.directoryByteOffset size)⟩,
          w.cells⟩
  | rename {w : World} {i : Nat} {e : RootEntry} {path name : Bytes}
      (renames : Renames m w.fs path i e name) :
      Edit m d₀ w ⟨renamedFs w.fs i e name, w.cells⟩

theorem Edit.step (edit : Edit m d₀ w w') : Step m d₀ w w' := by
  cases edit with
  | extend atIndex writable begins isLast found few grows =>
    exact .extend atIndex writable begins isLast found few grows
  | unlink atIndex writable begins inUse => exact .unlink atIndex writable begins inUse
  | data i only => exact .data i only
  | resize atIndex writable fits => exact .resize atIndex writable fits
  | rename renames => exact .rename renames

abbrev Edits (m : Mount) (d₀ : Device) : World → World → Prop := Relation.ReflTransGen (Edit m d₀)

theorem Edits.steps (edits : Edits m d₀ w w') :
    Steps m d₀ w w' := Relation.ReflTransGen.mono (fun _ _ edit => edit.step) _ _ edits

section

variable (m : Mount) (d₀ : Device) (fs : Fs) (cells : Nat → List Nat) (fs' : Fs)

/-- `fs'` is reached from `fs` by steps. -/
def Reaches : Prop :=
  ∃ cells', Steps m d₀ ⟨fs, cells⟩ ⟨fs', cells'⟩

/-- `fs'` is reached from `fs` without creating a file. -/
def EditsTo : Prop :=
  ∃ cells', Edits m d₀ ⟨fs, cells⟩ ⟨fs', cells'⟩

end

theorem Reaches.refl :
    Reaches m d₀ fs cells fs := ⟨cells, .refl⟩

theorem Reaches.andThen (ground : Ground m d₀) (table : Table m d₀ fs cells)
    (first : Reaches m d₀ fs cells fs') (next : ∀ cells', Table m d₀ fs' cells' → Reaches m d₀ fs' cells' fs'') :
    Reaches m d₀ fs cells fs'' := by
  obtain ⟨cells', steps⟩ := first
  obtain ⟨cells'', steps'⟩ := next cells' (table.steps ground steps)
  exact ⟨cells'', steps.trans steps'⟩

namespace EditsTo

variable {fs'' : Fs}

theorem refl : EditsTo m d₀ fs cells fs := ⟨cells, .refl⟩

theorem single (edit : Edit m d₀ ⟨fs, cells⟩ ⟨fs', cells'⟩) :
    EditsTo m d₀ fs cells fs' := ⟨cells', .single edit⟩

theorem reaches (edits : EditsTo m d₀ fs cells fs') : Reaches m d₀ fs cells fs' := by
  obtain ⟨cells', edits⟩ := edits
  exact ⟨cells', edits.steps⟩

theorem andThen (ground : Ground m d₀) (table : Table m d₀ fs cells) (first : EditsTo m d₀ fs cells fs')
    (next : ∀ cells', Table m d₀ fs' cells' → EditsTo m d₀ fs' cells' fs'') :
    EditsTo m d₀ fs cells fs'' := by
  obtain ⟨cells', edits⟩ := first
  obtain ⟨cells'', edits'⟩ := next cells' (table.steps ground edits.steps)
  exact ⟨cells'', edits.trans edits'⟩

end EditsTo

/-- What a call on a path does: it edits, or it creates a file first. A file created while the
    table is full is on disk only. -/
inductive Acts (m : Mount) (d₀ : Device) (fs : Fs) (cells : Nat → List Nat) (path : Bytes) (fs' : Fs) :
    Prop where
  | edits (edits : EditsTo m d₀ fs cells fs')
  | creates {requested : Nat} {c : Creation} (plan : planCreation m fs path requested = some c)
      (room : fs.rootEntries.length < maxRootEntries)
      (edits : EditsTo m d₀ ⟨fs.rootEntries ++ [c.entry m], c.device m d₀ fs.dev⟩
        (Function.update cells fs.rootEntries.length c.clusters) fs')
  | orphans {requested : Nat} {c : Creation} (plan : planCreation m fs path requested = some c)
      (full : maxRootEntries ≤ fs.rootEntries.length)
      (isFs : fs' = ⟨fs.rootEntries, c.device m d₀ fs.dev⟩)

theorem Acts.reaches (ground : Ground m d₀) (table : Table m d₀ fs cells) (acts : Acts m d₀ fs cells path fs') :
    Reaches m d₀ fs cells fs' := by
  cases acts with
  | edits edits => exact edits.reaches
  | creates plan room edits =>
    obtain ⟨planned, -, -⟩ := planCreation_spec ground table.agree plan
    obtain ⟨cells', steps⟩ := edits.reaches
    exact ⟨cells', .head (.create _ planned room) steps⟩
  | orphans plan full isFs =>
    obtain ⟨planned, -, -⟩ := planCreation_spec ground table.agree plan
    exact ⟨cells, isFs ▸ .single (.orphan _ planned full)⟩

/-- A size that is not refused fits the clusters counted for it. -/
theorem exfatTestClusterCountForSize_spec (accepted : exfatTestClusterCountForSize m size ≠ 0) :
    size ≤ exfatTestClusterCountForSize m size * m.clusterSize := by
  simp only [exfatTestClusterCountForSize] at accepted ⊢
  split
  · rename_i none
    simp [none] at accepted
  rename_i nonzero
  split
  · rename_i empty
    simp [empty]
  rename_i some_
  split
  · rename_i huge
    simp [some_, huge] at accepted
  rename_i small
  by_cases refused : (size + m.clusterSize - 1) / m.clusterSize = 0 ∨
      exfatAllocPlanClusterCount < (size + m.clusterSize - 1) / m.clusterSize
  · rw [if_neg nonzero, if_neg some_, if_neg small, if_pos refused] at accepted
    exact absurd rfl accepted
  · rw [if_neg refused]
    have pos : 0 < m.clusterSize := Nat.pos_of_ne_zero nonzero
    have remainder := Nat.div_add_mod (size + m.clusterSize - 1) m.clusterSize
    have below := Nat.mod_lt (size + m.clusterSize - 1) pos
    rw [Nat.mul_comm] at remainder
    omega

theorem planCreation_fits (ground : Ground m d₀) (agree : SameReserved m d₀ fs.dev)
    (plan : planCreation m fs path (exfatTestClusterCountForSize m size) = some c) :
    size ≤ c.clusters.length * m.clusterSize := by
  obtain ⟨planned, len, -⟩ := planCreation_spec ground agree plan
  rw [len]
  apply exfatTestClusterCountForSize_spec
  rw [← len]
  exact mt List.length_eq_zero_iff.mp planned.some_

section Operations

variable (ground : Ground m d₀) (ready : m.exfat.commit.ready) (table : Table m d₀ fs cells)

include ground ready table

omit ready in
theorem collect_kept (atIndex : fs.rootEntries[i]? = some e) (writable : e.writable) :
    ∃ kept, kept <+: cells i ∧ kept ≠ [] ∧ collectExfatTestClusterChain m fs.dev e = some kept ∧
      (Followable (cells i) → kept = cells i) :=
  have ok := table.entries i e atIndex writable
  collectExfatTestClusterChain_spec (table.volume ground) writable ok.first (table.owns.linked i)
    ok.valid ok.few

omit ready in
theorem extend_edits (atIndex : fs.rootEntries[i]? = some e)
    (writable : e.writable) (grows : e.capacity ≤ required * m.clusterSize) :
    EditsTo m d₀ fs cells (extendExfatTestFile m fs i e required).1 := by
  obtain ⟨kept, begins, present, collected, _⟩ := collect_kept ground table atIndex writable
  have ok := table.entries i e atIndex writable
  rw [extendExfatTestFile_eq ground table.agree writable present collected
    fun b member => ok.valid b (begins.subset member)]
  by_cases bounds : required = 0 ∨ 3 < required ∨ required < kept.length
  · simp only [bounds, if_true]
    exact .refl
  by_cases enough : kept.length = required
  · rw [if_neg bounds, if_pos enough]
    exact .refl
  rw [if_neg bounds, if_neg enough]
  cases found : findExfatFreeClusterRun m fs.dev (required - kept.length) with
  | none => exact .refl
  | some new =>
    have isLast : kept.getLast? = some (kept.getLastD 0) := by
      rw [List.getLastD_eq_getLast?, List.getLast?_eq_some_getLast present, Option.getD_some]
    exact .single (.extend atIndex writable begins isLast found (by omega) grows)

omit ground ready table in
/-- An extension changes nothing of its entry but the capacity. -/
theorem extend_entry {e' : RootEntry} (atIndex : fs.rootEntries[i]? = some e)
    (after : (extendExfatTestFile m fs i e required).1.rootEntries[i]? = some e') :
    ∃ capacity, e' = { e with capacity := capacity } := by
  have same (found : fs.rootEntries[i]? = some e') : ∃ capacity, e' = { e with capacity := capacity } :=
    ⟨e.capacity, (Option.some.inj (atIndex.symm.trans found)).symm⟩
  simp only [extendExfatTestFile] at after
  split at after
  · exact same after
  split at after
  · exact same after
  split at after
  · exact same after
  split at after
  · exact same after
  split at after
  · exact same after
  split at after
  · exact same after
  split at after
  · exact same after
  split at after
  · exact same after
  split at after
  · exact same after
  · rcases getElem?_set_cases after with ⟨_, isNew⟩ | ⟨other, _⟩
    · exact ⟨_, isNew⟩
    · exact absurd rfl other

theorem writeFileData_edits (atIndex : fs.rootEntries[i]? = some e) (writable : e.writable) :
    EditsTo m d₀ fs cells (writeFileData m fs i e offset data).1 := by
  have vol := table.volume ground
  have ok := table.entries i e atIndex writable
  have only : DataOnly m (cells i) fs.dev (writeFrom m e offset data data.length 0 fs.dev).1 :=
    writeFrom_dataOnly vol ok (table.owns.linked i) (.refl m _ _)
  simp only [writeFileData]
  cases outcome : writeFrom m e offset data data.length 0 fs.dev with
  | mk d done =>
  rw [outcome] at only
  have written : EditsTo m d₀ fs cells ⟨fs.rootEntries, d⟩ := .single (.data i only)
  cases done with
  | false => exact written
  | true =>
  by_cases grows : e.size < offset + data.length
  · simp only [grows]
    refine written.andThen ground table fun cells' table' => ?_
    rw [refreshExfatTestFileSize_eq ground table'.agree (table'.entries i e atIndex writable) ready
      writable]
    by_cases refused : e.capacity < offset + data.length ∨
        (d.data e.directoryLba).get e.directoryByteOffset ≠ 0x85 ∨
        (d.data e.directoryLba).get (e.directoryByteOffset + 32) ≠ 0xc0
    · simp only [refused]
      exact .refl
    · simp only [refused]
      exact .single (.resize atIndex writable (by omega))
  · simp only [grows]
    exact written

theorem writeNewFile_edits (atIndex : fs.rootEntries[i]? = some e) :
    EditsTo m d₀ fs cells (blockfsWriteNewFile m fs i e offset data).1 := by
  simp only [blockfsWriteNewFile]
  split
  · exact .refl
  rename_i checks
  have writable : e.writable := by
    simp only [Bool.or_eq_true, not_or, Bool.not_eq_true, Bool.not_eq_false'] at checks
    exact checks.1.1.1.2
  split
  · split
    · exact .refl
    rename_i accepted
    have fits := exfatTestClusterCountForSize_spec accepted
    have extended : EditsTo m d₀ fs cells (extendExfatTestFile m fs i e
        (exfatTestClusterCountForSize m (offset + data.length))).1 :=
      extend_edits ground table atIndex writable (by omega)
    split
    · rename_i fs' outcome
      rw [outcome] at extended
      exact extended
    · rename_i fs' outcome
      rw [outcome] at extended
      split
      · exact extended
      rename_i e' atIndex'
      have writable' : e'.writable := by
        obtain ⟨_, rfl⟩ := extend_entry atIndex (by rw [outcome]; exact atIndex')
        exact writable
      split
      · exact extended
      · refine extended.andThen ground table fun cells' table' => ?_
        exact writeFileData_edits ground ready table' atIndex' writable'
  · exact writeFileData_edits ground ready table atIndex writable

omit ready table in
theorem create_cases (ready : m.exfat.commit.ready) (table : Table m d₀ fs cells) (path : Bytes) (requested : Nat) :
    createExfatTestFileWithClusters m fs path requested = (fs, false) ∨
      ∃ c, planCreation m fs path requested = some c ∧
        (maxRootEntries ≤ fs.rootEntries.length ∧
            createExfatTestFileWithClusters m fs path requested =
              (⟨fs.rootEntries, c.device m d₀ fs.dev⟩, false) ∨
          fs.rootEntries.length < maxRootEntries ∧
            createExfatTestFileWithClusters m fs path requested =
              (⟨fs.rootEntries ++ [c.entry m], c.device m d₀ fs.dev⟩, true)) := by
  rw [createExfatTestFileWithClusters_eq ground table.agree ready]
  cases plan : planCreation m fs path requested with
  | none => exact .inl rfl
  | some c =>
    refine .inr ⟨c, rfl, ?_⟩
    by_cases full : maxRootEntries ≤ fs.rootEntries.length
    · exact .inl ⟨full, if_pos full⟩
    · exact .inr ⟨Nat.not_le.mp full, if_neg full⟩

theorem create_acts (requested : Nat)
    (fails : ∀ after, createExfatTestFileWithClusters m fs path requested = (after, false) → fs' = after)
    (goesOn : ∀ after, createExfatTestFileWithClusters m fs path requested = (after, true) →
      ∀ cells', Table m d₀ after cells' → EditsTo m d₀ after cells' fs') :
    Acts m d₀ fs cells path fs' := by
  obtain refused | ⟨c, plan, ⟨full, outcome⟩ | ⟨room, outcome⟩⟩ :=
    create_cases ground ready table path requested
  · rw [fails fs refused]
    exact .edits .refl
  · exact .orphans plan full (fails _ outcome)
  · obtain ⟨planned, -, -⟩ := planCreation_spec ground table.agree plan
    exact .creates plan room (goesOn _ outcome _ (table.create ground planned))

theorem blockfsWrite_acts : Acts m d₀ fs cells path (blockfsWrite m fs path offset data).1 := by
  simp only [blockfsWrite]
  split
  · apply Acts.edits
    split
    · exact .refl
    · rename_i atIndex
      exact writeNewFile_edits ground ready table atIndex
  split
  · exact .edits .refl
  split
  · exact .edits .refl
  refine create_acts ground ready table (exfatTestClusterCountForSize m data.length) ?_ ?_
  · intro after outcome
    rw [outcome]
  · intro after outcome cells' table'
    rw [outcome]
    dsimp only
    split
    · exact .refl
    split
    · exact .refl
    rename_i atIndex
    exact writeNewFile_edits ground ready table' atIndex

theorem truncateEntry_edits (atIndex : fs.rootEntries[i]? = some e) :
    EditsTo m d₀ fs cells (truncateEntry m fs i e size).1 := by
  simp only [truncateEntry]
  split
  · exact .refl
  rename_i checks
  have writable : e.writable := by
    simp only [Bool.or_eq_true, not_or, Bool.not_eq_true, Bool.not_eq_false'] at checks
    exact checks.1.1.2
  have ok := table.entries i e atIndex writable
  rw [refreshExfatTestFileSize_eq ground table.agree ok ready writable]
  by_cases refused : e.capacity < size ∨
      (fs.dev.data e.directoryLba).get e.directoryByteOffset ≠ 0x85 ∨
      (fs.dev.data e.directoryLba).get (e.directoryByteOffset + 32) ≠ 0xc0
  · rw [if_pos refused]
    exact .refl
  · rw [if_neg refused]
    exact .single (.resize atIndex writable (Nat.not_lt.mp (not_or.mp refused).1))

theorem rename_edits (absent : findExfatRootEntry fs.rootEntries path = none) :
    EditsTo m d₀ fs cells (renameExfatTestFile m fs path).1 := by
  by_cases renames : ∃ i e name, Renames m fs path i e name
  · obtain ⟨i, e, name, renames⟩ := renames
    rw [renameExfatTestFile_ok ground table ready renames]
    exact .single (.rename renames)
  · rw [renameExfatTestFile_refused ready absent fun i e name holds =>
      renames ⟨i, e, name, holds⟩]
    exact .refl

theorem blockfsTruncate_acts : Acts m d₀ fs cells path (blockfsTruncate m fs path size).1 := by
  simp only [blockfsTruncate]
  split
  · exact .edits .refl
  split
  · apply Acts.edits
    split
    · exact .refl
    · rename_i atIndex
      exact truncateEntry_edits ground ready table atIndex
  rename_i absent
  split
  · exact .edits .refl
  have renamed := rename_edits ground ready table absent
  unfold makeMissingFile
  by_cases renames : ∃ i e name, Renames m fs path i e name
  · obtain ⟨i, e, name, renames⟩ := renames
    rw [renameExfatTestFile_ok ground table ready renames] at renamed ⊢
    refine .edits (renamed.andThen ground table fun _ table' => ?_)
    dsimp only
    split
    · exact .refl
    split
    · exact .refl
    rename_i atIndex
    exact truncateEntry_edits ground ready table' atIndex
  · rw [renameExfatTestFile_refused ready absent fun i e name holds =>
      renames ⟨i, e, name, holds⟩]
    refine create_acts ground ready table (exfatTestClusterCountForSize m size) ?_ ?_
    · intro after outcome
      dsimp only
      rw [outcome]
    · intro after outcome cells' table'
      dsimp only
      rw [outcome]
      dsimp only
      split
      · exact .refl
      split
      · exact .refl
      rename_i atIndex
      exact truncateEntry_edits ground ready table' atIndex

theorem blockfsUnlink_edits : EditsTo m d₀ fs cells (blockfsUnlink m fs path).1 := by
  rw [blockfsUnlink]
  by_cases acts : (parseExfatTestShortName path).isSome ∧
      ∃ i e, findExfatRootEntry fs.rootEntries path = some i ∧ fs.rootEntries[i]? = some e ∧
        e.writable ∧ e.isDir = false ∧ e.parent = rootPath
  · obtain ⟨named, i, e, found, atIndex, writable, _⟩ := acts
    obtain ⟨kept, begins, present, collected, _⟩ := collect_kept ground table atIndex writable
    have ok := table.entries i e atIndex writable
    rw [unlinkExfatTestFile_eq ground table.agree ok writable (begins.length_le.trans ok.few)
      (fun b member => ok.valid b (begins.subset member)) present ready named found atIndex collected]
    split
    · rename_i goes
      exact .single (.unlink atIndex writable begins goes.1)
    · exact .refl
  · rw [unlink_refused]
    · exact .refl
    · by_cases named : parseExfatTestShortName path = none
      · exact .inl named
      · refine .inr fun i e found atIndex kind => acts ⟨Option.isSome_iff_ne_none.mpr named, i, e, ?_⟩
        exact ⟨found, atIndex, kind⟩

theorem FileOp.run_acts (op : FileOp) : Acts m d₀ fs cells op.path (op.run m fs) := by
  cases op with
  | write path offset data => exact blockfsWrite_acts ground ready table
  | truncate path size => exact blockfsTruncate_acts ground ready table
  | unlink path => exact .edits (blockfsUnlink_edits ground ready table)

omit table in
theorem runOps_reaches (ops : List FileOp) :
    ∀ {fs : Fs} {cells : Nat → List Nat}, Table m d₀ fs cells →
      Reaches m d₀ fs cells (runOps m fs ops) := by
  induction ops with
  | nil => exact fun _ => .refl
  | cons op rest ih =>
    intro fs cells table
    exact ((op.run_acts ground ready table).reaches ground table).andThen ground table fun _ table' => ih table'

end Operations

end TangPingOS
