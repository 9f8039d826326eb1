import TangPingOS.Exfat.Ownership

/-! # Files that truncate makes

`blockfs_truncate` of a missing path first tries to give the first writable file the name, if that
file is an empty `NEW.TXT`, and creates a file only if that is refused. What happens to the table
needs no healthy volume; it is the same whatever the device does.
-/

namespace TangPingOS

open Lib

variable {name path : Bytes} {entries : List RootEntry} {i size : Nat} {e : RootEntry}

theorem absent_entry
    (parsed : parseExfatTestShortName path = some name) (absent : findExfatRootEntry entries path = none) (atIndex : entries[i]? = some e) :
    (e.parent == rootPath && e.name == name) = false := by
  rw [findExfatRootEntry_short parsed, List.findIdx?_eq_none_iff] at absent
  exact absent e (List.mem_of_getElem? atIndex)

theorem found_entry (parsed : parseExfatTestShortName path = some name)
    (found : findExfatRootEntry entries path = some i) (atIndex : entries[i]? = some e) :
    (e.parent == rootPath && e.name == name) := by
  rw [findExfatRootEntry_short parsed, findIdx?_eq_some_iff_firstMatch] at found
  obtain ⟨e', first⟩ := found
  obtain rfl := Option.some.inj (atIndex.symm.trans first.here)
  exact first.passes

theorem findExfatTestFileEntry_root
    (first : findExfatTestFileEntry entries = some i) (atIndex : entries[i]? = some e) :
    e.parent = rootPath := by
  rw [findExfatTestFileEntry, findIdx?_eq_some_iff_firstMatch] at first
  obtain ⟨e', first⟩ := first
  obtain rfl := Option.some.inj (atIndex.symm.trans first.here)
  have passes := first.passes
  simp only [Bool.and_eq_true, beq_iff_eq] at passes
  exact passes.1.2

/-- What a path resolves to has not changed in size and first cluster. -/
def StillThere (before after : List RootEntry) (path : Bytes) : Prop :=
  ∀ i e, findExfatRootEntry before path = some i → before[i]? = some e →
    ∃ j e', findExfatRootEntry after path = some j ∧ after[j]? = some e' ∧ e'.size = e.size ∧
      e'.firstCluster = e.firstCluster

/-! ## What the parts of the call do to the table -/

section Parts

variable {m : Mount} {fs fs' : Fs} {path : Bytes} (ready : m.exfat.commit.ready)

include ready

theorem renameExfatTestFile_cases (absent : findExfatRootEntry fs.rootEntries path = none) :
    (∃ i e name, RenamesNew m fs path i e name ∧
      renameExfatTestFile m fs path = (renamedFs fs i e name, true)) ∨
    (∀ i e name, ¬RenamesNew m fs path i e name) ∧ renameExfatTestFile m fs path = (fs, false) := by
  by_cases renames : ∃ i e name, RenamesNew m fs path i e name
  · obtain ⟨i, e, name, renames⟩ := renames
    exact .inl ⟨i, e, name, renames, renames.done ready⟩
  · have refused := fun i e name holds => renames ⟨i, e, name, holds⟩
    exact .inr ⟨refused, renameExfatTestFile_kept ready absent refused⟩

omit ready in
/-- A create that succeeds appends an entry with the name of the path. -/
theorem create_appends {requested : Nat}
    (created : createExfatTestFileWithClusters m fs path requested = (fs', true)) :
    ∃ name e, parseExfatTestShortName path = some name ∧ e.parent = rootPath ∧ e.name = name ∧
      fs'.rootEntries = fs.rootEntries ++ [e] := by
  simp only [createExfatTestFileWithClusters] at created
  split at created
  · simp at created
  split at created
  · simp at created
  rename_i name parsed
  obtain ⟨_, _, short, _⟩ := parseExfatTestShortName_spec parsed
  have named : copyLimited 64 name = name := List.take_of_length_le (by omega)
  split at created
  · simp at created
  split at created
  · simp at created
  split at created
  · simp at created
  split at created
  · simp at created
  split at created
  · simp at created
  split at created
  · simp at created
  split at created
  · simp at created
  split at created
  · simp at created
  rename_i e added
  obtain ⟨rfl, -⟩ := Prod.mk.inj created
  simp only [addExfatRootEntry] at added
  split at added
  · cases added
  obtain rfl := Option.some.inj added
  exact ⟨name, _, parsed, rfl, named, rfl⟩

omit ready in
theorem truncateEntry_sets (done : truncateEntry m fs i e size = (fs', true)) :
    fs'.rootEntries = fs.rootEntries.set i { e with size := size } := by
  simp only [truncateEntry] at done
  split at done
  · simp at done
  split at done
  · simp at done
  rename_i d e' refreshed
  obtain ⟨rfl, -⟩ := Prod.mk.inj done
  unfold refreshExfatTestFileSize at refreshed
  repeat' split at refreshed
  all_goals simp at refreshed
  obtain ⟨-, rfl⟩ := refreshed
  rfl

end Parts

/-- The entry that a rename makes out of `NEW.TXT`, with its new size. -/
def RootEntry.renamed (e : RootEntry) (name : Bytes) (size : Nat) : RootEntry :=
  { e with name := name, size := size }

/-- How a truncate of a missing path that succeeds has changed the table. -/
theorem blockfsTruncate_makes (absent : findExfatRootEntry fs.rootEntries path = none)
    (succeeded : (blockfsTruncate m fs path size).2) :
    ∃ name, parseExfatTestShortName path = some name ∧
      ((∃ i e, RenamesNew m fs path i e name ∧
        (blockfsTruncate m fs path size).1.rootEntries = fs.rootEntries.set i (e.renamed name size)) ∨
      (∀ i e name, ¬RenamesNew m fs path i e name) ∧
        ∃ e : RootEntry, e.parent = rootPath ∧ e.name = name ∧
          (blockfsTruncate m fs path size).1.rootEntries = fs.rootEntries ++ [e]) := by
  generalize isResult : blockfsTruncate m fs path size = result at succeeded ⊢
  obtain ⟨fs', done⟩ := result
  cases succeeded
  simp only [blockfsTruncate, absent] at isResult
  split at isResult
  · simp at isResult
  rename_i ready
  simp only [Bool.not_eq_true', Bool.not_eq_false] at ready
  split at isResult
  · simp at isResult
  split at isResult
  · simp at isResult
  rename_i made isMade
  split at isResult
  · simp at isResult
  rename_i k found
  split at isResult
  · simp at isResult
  rename_i e' atIndex
  have sets := truncateEntry_sets isResult
  unfold makeMissingFile at isMade
  obtain ⟨i, e, name, renames, outcome⟩ | ⟨refused, outcome⟩ := renameExfatTestFile_cases ready absent
  · -- the path now resolves to the renamed entry
    rw [outcome] at isMade
    obtain ⟨rfl, -⟩ := Prod.mk.inj isMade
    have matched := found_entry renames.parsed found atIndex
    obtain ⟨rfl, rfl⟩ | ⟨-, old⟩ := getElem?_set_cases atIndex
    · refine ⟨name, renames.parsed, .inl ⟨k, e, renames, ?_⟩⟩
      rw [sets, renamedFs, List.set_set]
      rfl
    · rw [absent_entry renames.parsed absent old] at matched
      cases matched
  · rw [outcome] at isMade
    obtain ⟨name, e, parsed, parent, isName, appended⟩ := create_appends isMade
    have matched := found_entry parsed found atIndex
    rw [appended] at atIndex sets
    obtain ⟨rfl, rfl⟩ | ⟨-, old⟩ := getElem?_append_cases atIndex
    · refine ⟨name, parsed, .inr ⟨refused, { e' with size := size }, parent, isName, ?_⟩⟩
      rw [sets, List.set_append_right _ _ (Nat.le_refl _), Nat.sub_self, List.set_cons_zero]
    · rw [absent_entry parsed absent old] at matched
      cases matched

/-- Behind entry `i` the table has another one of the same name, size and first cluster, and it is
    the next that a lookup of the name meets. -/
def Twin (entries : List RootEntry) (i : Nat) (e : RootEntry) : Prop :=
  ∃ j e', i < j ∧ entries[j]? = some e' ∧ (e'.parent == e.parent && e'.name == e.name) ∧
    (∀ k b, i < k → k < j → entries[k]? = some b → (b.parent == e.parent && b.name == e.name) = false) ∧
    e'.size = e.size ∧ e'.firstCluster = e.firstCluster

/-- A truncate that makes a file keeps all others exactly if it does not take the file that
    `/NEW.TXT` stands for. -/
theorem making_a_file_keeps_others_iff {m : Mount} {fs : Fs} {path : Bytes} {size : Nat}
    (absent : findExfatRootEntry fs.rootEntries path = none)
    (succeeded : (blockfsTruncate m fs path size).2 = true) :
    (∀ other, other ≠ path →
      StillThere fs.rootEntries (blockfsTruncate m fs path size).1.rootEntries other) ↔
    ∀ i e name, RenamesNew m fs path i e name →
      (∀ j b, j < i → fs.rootEntries[j]? = some b → (b.parent == rootPath && b.name == newTxt) = false) →
      Twin fs.rootEntries i e := by
  obtain ⟨name, parsed, ⟨i, e, renames, table⟩ | ⟨refused, e, parent, isName, table⟩⟩ :=
    blockfsTruncate_makes absent succeeded
  · have isRoot : e.parent = rootPath := findExfatTestFileEntry_root renames.first renames.atIndex
    -- the new name is not the old one, which an entry has
    have notNew : ((e.renamed name size).parent == e.parent && (e.renamed name size).name == e.name) = false := by
      have differs := absent_entry parsed absent renames.atIndex
      rw [isRoot, beq_self_eq_true, Bool.true_and, beq_eq_false_iff_ne] at differs
      rw [RootEntry.renamed, beq_self_eq_true]
      exact beq_eq_false_iff_ne.mpr differs.symm
    rw [table]
    constructor
    · intro kept i' e' name' renames' unseen
      obtain rfl : i = i' := Option.some.inj (renames.first.symm.trans renames'.first)
      obtain rfl : e = e' := Option.some.inj (renames.atIndex.symm.trans renames'.atIndex)
      have first : Named fs.rootEntries e.parent e.name i e := by
        rw [isRoot, renames.isNew]
        exact ⟨renames.atIndex, by simp [isRoot, renames.isNew], unseen⟩
      have split : splitPath (0x2f :: newTxt) = some (e.parent, e.name) := by
        rw [isRoot, renames.isNew]
        decide
      have found := findExfatRootEntry_eq_some.mpr ⟨_, _, split, e, first⟩
      have other : 0x2f :: newTxt ≠ path := by
        rintro rfl
        rw [absent] at found
        cases found
      obtain ⟨j, e', after, atIndex, sameSize, sameCluster⟩ := kept _ other i e found renames.atIndex
      obtain ⟨parent, name'', split', e'', next⟩ := findExfatRootEntry_eq_some.mp after
      obtain ⟨rfl, rfl⟩ := Prod.mk.inj (Option.some.inj (split.symm.trans split'))
      obtain rfl := Option.some.inj (atIndex.symm.trans next.here)
      obtain ⟨later, here, passes, between⟩ := (first.set_self_iff notNew).mp next
      exact ⟨j, e', later, here, passes, between, sameSize, sameCluster⟩
    · intro twins other notPath k e₁ found atIndex
      obtain ⟨parent, name', split, e₂, first⟩ := findExfatRootEntry_eq_some.mp found
      obtain rfl := Option.some.inj (atIndex.symm.trans first.here)
      by_cases taken : i = k
      · subst taken
        obtain rfl := Option.some.inj (renames.atIndex.symm.trans atIndex)
        have isName := first.passes
        simp only [Bool.and_eq_true, beq_iff_eq] at isName
        obtain ⟨rfl, rfl⟩ := isName
        obtain ⟨j, e', later, here, passes, between, sameSize, sameCluster⟩ := twins i e name renames
          (fun j b before here => by
            have fails := first.earlier j b before here
            rwa [isRoot, renames.isNew] at fails)
        have next := (first.set_self_iff notNew).mpr ⟨later, here, passes, between⟩
        exact ⟨j, e', findExfatRootEntry_eq_some.mpr ⟨_, _, split, e', next⟩, next.here, sameSize, sameCluster⟩
      · have fails : ((e.renamed name size).parent == parent && (e.renamed name size).name == name') = false := by
          have differs := absent_entry parsed absent atIndex
          have isName := first.passes
          simp only [Bool.and_eq_true, beq_iff_eq] at isName
          rw [isName.1, isName.2] at differs
          rw [RootEntry.renamed, isRoot]
          simp only [Bool.and_eq_false_iff, beq_eq_false_iff_ne] at differs ⊢
          exact differs.imp Ne.symm Ne.symm
        have still := first.set_other taken fails
        exact ⟨k, e₁, findExfatRootEntry_eq_some.mpr ⟨_, _, split, e₁, still⟩, still.here, rfl, rfl⟩
  · rw [table]
    constructor
    · intro _ i e' name' renames
      exact absurd renames (refused i e' name')
    · intro _ other _ i e₁ found atIndex
      obtain ⟨parent, name', split, e₂, first⟩ := findExfatRootEntry_eq_some.mp found
      obtain rfl := Option.some.inj (atIndex.symm.trans first.here)
      have still := first.append [e]
      exact ⟨i, e₁, findExfatRootEntry_eq_some.mpr ⟨_, _, split, e₁, still⟩, still.here, rfl, rfl⟩

/-- `/NEW.TXT` and `/A`. -/
def newTxtPath : Bytes := 0x2f :: newTxt

def pathOfA : Bytes := [0x2f, 0x41]

def readyMount : Mount where
  blockSize := 512
  exfat := { commit := { ready := true } }

/-- Two files named `NEW.TXT`; the second one is writable and has its entry set in sector 1. -/
def twoNewTxt : Fs where
  rootEntries :=
    [{ parent := rootPath, name := newTxt },
      { parent := rootPath, name := newTxt, capacity := 512, directoryLba := 1, firstCluster := 9,
        writable := true }]
  dev :=
    { blockCount := 2
      bounded := by decide
      writable := true
      fault := fun _ => false
      data := fun _ => sectorOf [(0, [0x85]), (32, [0xc0]), (64, [0xc1])] }

theorem making_a_file_keeps_others_two :
    StillThere twoNewTxt.rootEntries (blockfsTruncate readyMount twoNewTxt pathOfA 7).1.rootEntries
      newTxtPath := by
  have succeeded : (blockfsTruncate readyMount twoNewTxt pathOfA 7).2 := by decide +kernel
  refine (making_a_file_keeps_others_iff (by decide) succeeded).mpr (fun i e name renames unseen => ?_)
    newTxtPath (by decide)
  -- the second file is taken, and the first one answers for the name
  obtain rfl := Option.some.inj ((by decide : findExfatTestFileEntry twoNewTxt.rootEntries = some 1).symm.trans
    renames.first)
  have seen := unseen 0 _ (by decide) rfl
  cases seen

/-- The user deletes the file that the mount made, and makes one of that name. -/
def ownNewTxt : Fs :=
  runOps (blockfsMount plainDevice).1 (blockfsMount plainDevice).2 [.unlink newTxtPath, .truncate newTxtPath 0]

/-- Making `/A` takes the user's own `/NEW.TXT` away. -/
theorem making_a_file_takes_new_txt :
    Mounted plainDevice (blockfsMount plainDevice).1 (blockfsMount plainDevice).2 ∧
      findExfatRootEntry ownNewTxt.rootEntries pathOfA = none ∧
      findExfatRootEntry ownNewTxt.rootEntries newTxtPath = some 1 ∧
      (blockfsTruncate (blockfsMount plainDevice).1 ownNewTxt pathOfA 0).2 = true ∧
      findExfatRootEntry (blockfsTruncate (blockfsMount plainDevice).1 ownNewTxt pathOfA 0).1.rootEntries
        newTxtPath = none :=
  ⟨plainDevice_mounted, by decide +kernel⟩

end TangPingOS
