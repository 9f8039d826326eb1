import TangPingOS.Exfat.Decode

/-! # Names in the root directory

As long as the table has room for every file, it lists every set of the root
directory, so a name that a lookup does not find is a name no set has. Steps that
keep this keep the names apart, in the table and on disk.
-/

namespace TangPingOS

open Lib

variable {path : Bytes} {c : Creation} {d₀ : Device} {fs fs' : Fs} {entries : List RootEntry} {m : Mount}
  {first i lba size z : Nat} {cells : Nat → List Nat} {image : Nat → Sector} {e e' x : RootEntry} {s : Sector}

def EntriesDistinct (entries : List RootEntry) : Prop :=
  ∀ (i j : Nat) (e e' : RootEntry), i ≠ j → entries[i]? = some e → entries[j]? = some e' → e.name ≠ [] →
    ¬ (e.parent = e'.parent ∧ e.name = e'.name)

/-- No two in-use sets of the root directory decode to the same name. -/
def SetsDistinct (m : Mount) (d₀ d : Device) : Prop :=
  ∀ lba lba' k k', RootSector m d₀ lba → RootSector m d₀ lba' → FileSlot (d.data lba) k →
    FileSlot (d.data lba') k' → setName (d.data lba) k = setName (d.data lba') k' → lba = lba' ∧ k = k'

def Listed (m : Mount) (d₀ d : Device) (entries : List RootEntry) : Prop :=
  ∀ lba k, RootSector m d₀ lba → FileSlot (d.data lba) k → setName (d.data lba) k ≠ [] →
    ∃ e ∈ entries, e.parent = rootPath ∧ e.name = setName (d.data lba) k

/-- What keeps names apart. -/
structure Names (m : Mount) (d₀ : Device) (fs : Fs) : Prop where
  sectors : ∀ lba, RootSector m d₀ lba → SectorOk (fs.dev.data lba)
  plain : ∀ i e, fs.Live i e → PlainName e.name
  listed : Listed m d₀ fs.dev fs.rootEntries
  sets : SetsDistinct m d₀ fs.dev
  entries : EntriesDistinct fs.rootEntries

/-! ## Editing one set of the directory -/

/-- One set of the root directory is edited, the one from slot `z` on of the sector `here`. -/
structure DirEdit (m : Mount) (d₀ d d' : Device) (here z : Nat) : Prop where
  root : RootSector m d₀ here
  slots : SlotEdit (d.data here) (d'.data here) z
  other : ∀ lba, RootSector m d₀ lba → lba ≠ here → d'.data lba = d.data lba

namespace DirEdit

variable {d d' : Device} {here : Nat} (edit : DirEdit m d₀ d d' here z)
  (sectors : ∀ lba, RootSector m d₀ lba → SectorOk (d.data lba))

include edit sectors

theorem sectorOk (root : RootSector m d₀ lba) : SectorOk (d'.data lba) := by
  by_cases same : lba = here
  · subst same
    exact edit.slots.sectorOk (sectors _ root)
  · rw [edit.other lba root same]
    exact sectors lba root

/-- A set after the edit is the edited one, or it was there before under the same name. -/
theorem set_cases (root : RootSector m d₀ lba) (file : FileSlot (d'.data lba) k) :
    lba = here ∧ k = z ∨ ¬ (lba = here ∧ k = z) ∧ FileSlot (d.data lba) k ∧
      setName (d'.data lba) k = setName (d.data lba) k := by
  by_cases same : lba = here
  · subst same
    obtain isEdited | ⟨other, old⟩ := edit.slots.fileSlot_cases file
    · exact .inl ⟨rfl, isEdited⟩
    · exact .inr ⟨by omega, old, edit.slots.setName_eq (sectors _ root) old other⟩
  · rw [edit.other lba root same] at file ⊢
    exact .inr ⟨fun both => same both.1, file, rfl⟩

/-- The edited set, if still in use, has a name no other set has. -/
theorem setsDistinct (distinct : SetsDistinct m d₀ d)
    (fresh : FileSlot (d'.data here) z → ∀ lba k, RootSector m d₀ lba → ¬ (lba = here ∧ k = z) →
      FileSlot (d.data lba) k → setName (d.data lba) k ≠ setName (d'.data here) z) :
    SetsDistinct m d₀ d' := by
  intro lba lba' k k' root root' file file' same
  obtain ⟨rfl, rfl⟩ | ⟨other, old, name⟩ := edit.set_cases sectors root file
  · obtain ⟨rfl, rfl⟩ | ⟨other', old', name'⟩ := edit.set_cases sectors root' file'
    · exact ⟨rfl, rfl⟩
    · exact absurd (name'.symm.trans same.symm) (fresh file lba' k' root' other' old')
  · obtain ⟨rfl, rfl⟩ | ⟨-, old', name'⟩ := edit.set_cases sectors root' file'
    · exact absurd (name.symm.trans same) (fresh file' lba k root other old)
    · exact distinct lba lba' k k' root root' old old' (name.symm.trans (same.trans name'))

theorem listed (edited : FileSlot (d'.data here) z →
      ∃ e ∈ entries, e.parent = rootPath ∧ e.name = setName (d'.data here) z)
    (others : ∀ lba k, RootSector m d₀ lba → ¬ (lba = here ∧ k = z) → FileSlot (d.data lba) k →
      setName (d.data lba) k ≠ [] → ∃ e ∈ entries, e.parent = rootPath ∧ e.name = setName (d.data lba) k) :
    Listed m d₀ d' entries := by
  intro lba k root file named
  obtain ⟨rfl, rfl⟩ | ⟨other, old, name⟩ := edit.set_cases sectors root file
  · exact edited file
  · rw [name] at named ⊢
    exact others lba k root other old named

end DirEdit

theorem mem_set_other
    (atIndex : entries[i]? = some e) (member : e' ∈ entries) (other : e' ≠ e) : e' ∈ entries.set i x := by
  obtain ⟨j, found⟩ := List.mem_iff_getElem?.mp member
  have apart : i ≠ j := by
    rintro rfl
    exact other (Option.some.inj (found.symm.trans atIndex))
  exact List.mem_of_getElem? ((List.getElem?_set_ne apart).trans found)

theorem mem_set_self (atIndex : entries[i]? = some e) : x ∈ entries.set i x := by
  obtain ⟨inside, -⟩ := List.getElem?_eq_some_iff.mp atIndex
  exact List.mem_of_getElem? (List.getElem?_set_self inside)

namespace EntriesDistinct

variable (distinct : EntriesDistinct entries)

include distinct

theorem append (absent : ∀ x ∈ entries, ¬ (x.parent = e.parent ∧ x.name = e.name)) :
    EntriesDistinct (entries ++ [e]) := by
  intro i j x y other atI atJ named same
  obtain ⟨rfl, rfl⟩ | ⟨-, oldX⟩ := getElem?_append_cases atI
  · obtain ⟨rfl, -⟩ | ⟨-, oldY⟩ := getElem?_append_cases atJ
    · exact other rfl
    · exact absent y (List.mem_of_getElem? oldY) ⟨same.1.symm, same.2.symm⟩
  · obtain ⟨-, rfl⟩ | ⟨-, oldY⟩ := getElem?_append_cases atJ
    · exact absent x (List.mem_of_getElem? oldX) same
    · exact distinct i j x y other oldX oldY named same

/-- An entry may be blanked, or given a name that its directory does not have. -/
theorem set (absent : e.name ≠ [] → ∀ j x, j ≠ i → entries[j]? = some x →
      ¬ (x.parent = e.parent ∧ x.name = e.name)) : EntriesDistinct (entries.set i e) := by
  intro j k x y other atJ atK named same
  obtain ⟨rfl, rfl⟩ | ⟨otherX, oldX⟩ := getElem?_set_cases atJ
  · obtain ⟨rfl, -⟩ | ⟨otherY, oldY⟩ := getElem?_set_cases atK
    · exact other rfl
    · exact absent named k y otherY oldY ⟨same.1.symm, same.2.symm⟩
  · obtain ⟨rfl, rfl⟩ | ⟨-, oldY⟩ := getElem?_set_cases atK
    · exact absent (same.2 ▸ named) j x otherX oldX same
    · exact distinct j k x y other oldX oldY named same

theorem retouch (atIndex : entries[i]? = some e)
    (parent : e'.parent = e.parent) (name : e'.name = e.name) : EntriesDistinct (entries.set i e') := by
  apply distinct.set
  intro named j x other found same
  rw [parent, name] at same
  exact distinct i j e x other.symm atIndex found (name ▸ named) ⟨same.1.symm, same.2.symm⟩

end EntriesDistinct

/-! ## The invariant under the changes of a directory -/

/-- The slots of a writable entry. -/
structure RootEntry.InSlot (e : RootEntry) (d : Device) (z : Nat) : Prop where
  offset : e.directoryByteOffset = z * 32
  inside : z + 3 ≤ 16
  set : SetAt (d.data e.directoryLba) (z * 32) e.name e.firstCluster e.size

theorem Fs.Live.inSlot (table : Table m d₀ fs cells) (sets : Sets fs) (live : fs.Live i e) :
    ∃ z, e.InSlot fs.dev z := by
  have ok := table.entries i e live.1 live.2
  have fits := ok.offset
  have aligned := ok.slot
  have offset : e.directoryByteOffset = e.directoryByteOffset / 32 * 32 := by omega
  refine ⟨e.directoryByteOffset / 32, offset, by omega, ?_⟩
  rw [← offset]
  exact live.setOn sets

theorem RootEntry.InSlot.fileSlot (slot : e.InSlot d z) : FileSlot (d.data e.directoryLba) z := by
  have inside := slot.inside
  exact ⟨by omega, slot.set.fileMark⟩

namespace Names

variable (names : Names m d₀ fs)

include names

theorem create (edit : DirEdit m d₀ fs.dev fs'.dev e.directoryLba z)
    (set : SetAt (fs'.dev.data e.directoryLba) (z * 32) e.name first size) (plain : PlainName e.name)
    (parent : e.parent = rootPath) (absent : ∀ x ∈ fs.rootEntries, ¬ (x.parent = rootPath ∧ x.name = e.name))
    (entries : fs'.rootEntries = fs.rootEntries ++ [e]) : Names m d₀ fs' := by
  have name := set.setName edit.slots.inside plain
  constructor
  · exact fun lba root => edit.sectorOk names.sectors root
  · intro i x live
    have found := live.1
    rw [entries] at found
    obtain ⟨-, rfl⟩ | ⟨-, old⟩ := getElem?_append_cases found
    · exact plain
    · exact names.plain i x ⟨old, live.2⟩
  · rw [entries]
    refine edit.listed names.sectors (fun _ => ⟨e, by simp, parent, name.symm⟩) ?_
    intro lba k root other file named
    obtain ⟨x, member, isRoot, isName⟩ := names.listed lba k root file named
    exact ⟨x, List.mem_append_left _ member, isRoot, isName⟩
  · refine edit.setsDistinct names.sectors names.sets fun _ lba k root other file same => ?_
    rw [name] at same
    obtain ⟨x, member, isRoot, isName⟩ := names.listed lba k root file (same ▸ plain.some_)
    exact absent x member ⟨isRoot, isName.trans same⟩
  · rw [entries]
    refine names.entries.append fun x member same => ?_
    rw [parent] at same
    exact absent x member same

theorem plain_set (entries : fs'.rootEntries = fs.rootEntries.set i x)
    (plain : x.writable → PlainName x.name) (j : Nat) (y : RootEntry) (here : fs'.Live j y) :
    PlainName y.name := by
  have found := here.1
  rw [entries] at found
  obtain ⟨-, rfl⟩ | ⟨-, old⟩ := getElem?_set_cases found
  · exact plain here.2
  · exact names.plain j y ⟨old, here.2⟩

section Live

variable (live : fs.Live i e) (slot : e.InSlot fs.dev z)

include live slot

theorem setName_live : setName (fs.dev.data e.directoryLba) z = e.name :=
  slot.set.setName slot.inside (names.plain i e live)

theorem others_listed (root : RootSector m d₀ e.directoryLba) (lba k : Nat)
    (root' : RootSector m d₀ lba) (other : ¬ (lba = e.directoryLba ∧ k = z))
    (file : FileSlot (fs.dev.data lba) k) (named : setName (fs.dev.data lba) k ≠ []) :
    ∃ y ∈ fs.rootEntries.set i x, y.parent = rootPath ∧ y.name = setName (fs.dev.data lba) k := by
  obtain ⟨y, member, isRoot, isName⟩ := names.listed lba k root' file named
  refine ⟨y, mem_set_other live.1 member ?_, isRoot, isName⟩
  rintro rfl
  apply other
  apply names.sets lba _ k z root' root file slot.fileSlot
  rw [names.setName_live live slot, isName]

/-- A file keeps its name or is given one that no entry has. -/
theorem rewrite (edit : DirEdit m d₀ fs.dev fs'.dev e.directoryLba z)
    (set : SetAt (fs'.dev.data e.directoryLba) (z * 32) e'.name first size) (plain : PlainName e'.name)
    (parent : e.parent = rootPath) (sameParent : e'.parent = e.parent)
    (absent : e'.name = e.name ∨ ∀ x ∈ fs.rootEntries, ¬ (x.parent = rootPath ∧ x.name = e'.name))
    (entries : fs'.rootEntries = fs.rootEntries.set i e') : Names m d₀ fs' := by
  have name := set.setName edit.slots.inside plain
  have isRoot' : e'.parent = rootPath := sameParent.trans parent
  constructor
  · exact fun lba root => edit.sectorOk names.sectors root
  · exact names.plain_set entries fun _ => plain
  · rw [entries]
    exact edit.listed names.sectors (fun _ => ⟨e', mem_set_self live.1, isRoot', name.symm⟩)
      (names.others_listed live slot edit.root)
  · refine edit.setsDistinct names.sectors names.sets fun _ lba k root other file same => ?_
    rw [name] at same
    obtain kept | absent := absent
    · apply other
      apply names.sets lba _ k z root edit.root file slot.fileSlot
      rw [names.setName_live live slot, same, kept]
    · obtain ⟨x, member, isRoot, isName⟩ := names.listed lba k root file (same ▸ plain.some_)
      exact absent x member ⟨isRoot, isName.trans same⟩
  · rw [entries]
    obtain kept | absent := absent
    · exact names.entries.retouch live.1 sameParent kept
    · refine names.entries.set fun _ j x other found same => ?_
      rw [isRoot'] at same
      exact absent x (List.mem_of_getElem? found) same

theorem delete (edit : DirEdit m d₀ fs.dev fs'.dev e.directoryLba z)
    (gone : ¬ FileSlot (fs'.dev.data e.directoryLba) z)
    (entries : fs'.rootEntries = fs.rootEntries.set i {}) : Names m d₀ fs' := by
  constructor
  · exact fun lba root => edit.sectorOk names.sectors root
  · exact names.plain_set entries fun empty => by cases empty
  · rw [entries]
    exact edit.listed names.sectors (fun file => absurd file gone)
      (names.others_listed live slot edit.root)
  · exact edit.setsDistinct names.sectors names.sets fun file => absurd file gone
  · rw [entries]
    exact names.entries.set fun named => absurd rfl named

end Live

/-- The directory stays, and parents and names of the entries do. -/
theorem keep (root : ∀ lba, RootSector m d₀ lba → fs'.dev.data lba = fs.dev.data lba)
    (entries : fs'.rootEntries = fs.rootEntries ∨ ∃ (i : Nat) (e : RootEntry) (capacity : Nat),
      fs.rootEntries[i]? = some e ∧
        fs'.rootEntries = fs.rootEntries.set i { e with capacity := capacity }) : Names m d₀ fs' := by
  have sets : SetsDistinct m d₀ fs'.dev := by
    intro lba lba' k k' root₁ root₂ file file'
    rw [root lba root₁] at file ⊢
    rw [root lba' root₂] at file' ⊢
    exact names.sets lba lba' k k' root₁ root₂ file file'
  have sectors (lba : Nat) (isRoot : RootSector m d₀ lba) : SectorOk (fs'.dev.data lba) := by
    rw [root lba isRoot]
    exact names.sectors lba isRoot
  obtain same | ⟨i, e, capacity, atIndex, changed⟩ := entries
  · refine ⟨sectors, ?_, ?_, sets, same ▸ names.entries⟩
    · intro j x live
      exact names.plain j x ⟨same ▸ live.1, live.2⟩
    · intro lba k isRoot file named
      rw [root lba isRoot] at file named ⊢
      rw [same]
      exact names.listed lba k isRoot file named
  · refine ⟨sectors, ?_, ?_, sets, changed ▸ names.entries.retouch atIndex rfl rfl⟩
    · intro j x live
      have found := live.1
      rw [changed] at found
      obtain ⟨rfl, rfl⟩ | ⟨-, old⟩ := getElem?_set_cases found
      · exact names.plain j e ⟨atIndex, live.2⟩
      · exact names.plain j x ⟨old, live.2⟩
    · intro lba k isRoot file named
      rw [root lba isRoot] at file named ⊢
      rw [changed]
      obtain ⟨x, member, isParent, isName⟩ := names.listed lba k isRoot file named
      obtain ⟨j, found⟩ := List.mem_iff_getElem?.mp member
      by_cases here : j = i
      · subst here
        obtain rfl := Option.some.inj (atIndex.symm.trans found)
        exact ⟨_, mem_set_self atIndex, isParent, isName⟩
      · exact ⟨x, List.mem_of_getElem? ((List.getElem?_set_ne (Ne.symm here)).trans found), isParent, isName⟩

end Names

theorem absent_of_find
    (parsed : parseExfatTestShortName path = some name) (absent : findExfatRootEntry entries path = none) :
    ∀ x ∈ entries, ¬ (x.parent = rootPath ∧ x.name = name) := by
  rw [findExfatRootEntry_short parsed, List.findIdx?_eq_none_iff] at absent
  intro x member same
  have differs := absent x member
  simp [same.1, same.2] at differs

section DirEdits

variable (table : Table m d₀ fs cells) (sectors : ∀ lba, RootSector m d₀ lba → SectorOk (fs.dev.data lba))

include table sectors

/-- The set of a writable entry is rewritten in its slots together with the entry. -/
theorem DirEdit.rewritten (sets : Sets fs) (sets' : Sets fs') (live : fs.Live i e)
    (entries : fs'.rootEntries = fs.rootEntries.set i e')
    (place : e'.directoryLba = e.directoryLba ∧ e'.directoryByteOffset = e.directoryByteOffset ∧
      e'.writable)
    (only : OnlySet e.directoryByteOffset (fs.dev.data e.directoryLba) (fs'.dev.data e.directoryLba))
    (root : ∀ lba, RootSector m d₀ lba → fs'.dev.data lba =
      if lba = e.directoryLba then image lba else fs.dev.data lba) :
    ∃ z, e.InSlot fs.dev z ∧ DirEdit m d₀ fs.dev fs'.dev e.directoryLba z ∧
      SetAt (fs'.dev.data e.directoryLba) (z * 32) e'.name e'.firstCluster e'.size := by
  have inRoot := (table.entries i e live.1 live.2).directory
  obtain ⟨z, slot⟩ := live.inSlot table sets
  have live' : fs'.Live i e' := by
    refine ⟨?_, place.2.2⟩
    rw [entries, List.getElem?_set_self (List.getElem?_eq_some_iff.mp live.1).1]
  have set' : SetAt (fs'.dev.data e.directoryLba) (z * 32) e'.name e'.firstCluster e'.size := by
    rw [← slot.offset, ← place.1, ← place.2.1]
    exact live'.setOn sets'
  rw [slot.offset] at only
  exact ⟨z, slot, ⟨inRoot, .rewrite (sectors _ inRoot) slot.inside only slot.set set',
    fun lba isRoot other => (root lba isRoot).trans (if_neg other)⟩, set'⟩

theorem DirEdit.deleted (sets : Sets fs) (live : fs.Live i e)
    (deleted : (Patch.deleteEntries e.directoryByteOffset 3).apply (fs.dev.data e.directoryLba) = some s)
    (root : ∀ lba, RootSector m d₀ lba → fs'.dev.data lba =
      if lba = e.directoryLba then s else fs.dev.data lba) :
    ∃ z, e.InSlot fs.dev z ∧ DirEdit m d₀ fs.dev fs'.dev e.directoryLba z ∧
      ¬ FileSlot (fs'.dev.data e.directoryLba) z := by
  have inRoot := (table.entries i e live.1 live.2).directory
  obtain ⟨z, slot⟩ := live.inSlot table sets
  rw [slot.offset] at deleted
  obtain ⟨edit, head⟩ := SlotEdit.delete (sectors _ inRoot) slot.inside slot.set deleted
  have here := (root _ inRoot).trans (if_pos rfl)
  exact ⟨z, slot, ⟨inRoot, here ▸ edit, fun lba isRoot other => (root lba isRoot).trans (if_neg other)⟩,
    fun file => head (here ▸ file.2)⟩

theorem DirEdit.created (ground : Ground m d₀) (created : Created m d₀ fs fs' c) :
    ∃ z, DirEdit m d₀ fs.dev fs'.dev c.lba z ∧
      SetAt (fs'.dev.data c.lba) (z * 32) c.name (c.clusters.headD 0) 0 := by
  obtain ⟨planned, root, -⟩ := created
  have inRoot := planned.lba ground table.agree
  obtain ⟨r, ⟨i, b, j, -, -, foundAt⟩, lba, offset⟩ := planned.slot
  have here := (root _ inRoot).trans (if_pos rfl)
  have set : SetAt (fs'.dev.data c.lba) (r.slot * 32) c.name (c.clusters.headD 0) 0 := by
    rw [here, ← offset]
    exact Creation.setAt planned
  have only : OnlySet (r.slot * 32) (fs.dev.data c.lba) (fs'.dev.data c.lba) := by
    rw [here, ← offset]
    exact onlySet_write Buf.length_slice
  rw [← foundAt.lba, ← lba] at foundAt
  exact ⟨r.slot, ⟨inRoot, .create (sectors _ inRoot) foundAt.inside only foundAt.triple foundAt.first set,
    fun other isRoot apart => (root other isRoot).trans (if_neg apart)⟩, set⟩

end DirEdits

/-- The set of a writable entry is edited together with the entry. -/
theorem Names.editSet (names : Names m d₀ fs) (table : Table m d₀ fs cells) (sets : Sets fs)
    (live : fs.Live i e) (entries : fs'.rootEntries = fs.rootEntries.set i e')
    (place : e'.directoryLba = e.directoryLba ∧ e'.directoryByteOffset = e.directoryByteOffset ∧
      e'.writable)
    (sets' : Sets fs')
    (only : OnlySet e.directoryByteOffset (fs.dev.data e.directoryLba) (fs'.dev.data e.directoryLba))
    (root : ∀ lba, RootSector m d₀ lba → fs'.dev.data lba =
      if lba = e.directoryLba then image lba else fs.dev.data lba)
    (plain : PlainName e'.name) (parent : e'.parent = e.parent)
    (absent : e'.name = e.name ∨ ∀ x ∈ fs.rootEntries, ¬ (x.parent = rootPath ∧ x.name = e'.name)) :
    Names m d₀ fs' := by
  have ok := table.entries i e live.1 live.2
  obtain ⟨z, slot, dirEdit, set'⟩ := DirEdit.rewritten table names.sectors sets sets' live entries place only root
  exact names.rewrite live slot dirEdit set' plain ok.parent parent absent entries

section Changes

variable (ground : Ground m d₀) (table : Table m d₀ fs cells) (sets : Sets fs) (names : Names m d₀ fs)

include ground table sets names

theorem Names.change (change : DirChange m d₀ fs fs') : Names m d₀ fs' := by
  cases change with
  | keep root entries => exact names.keep root entries
  | unlink i e atIndex writable s deleted root entries =>
    have live : fs.Live i e := ⟨atIndex, writable⟩
    obtain ⟨z, slot, dirEdit, gone⟩ := DirEdit.deleted table names.sectors sets live deleted root
    exact names.delete live slot dirEdit gone entries
  | resize i e size atIndex writable fits root entries =>
    have live : fs.Live i e := ⟨atIndex, writable⟩
    have ok := table.entries i e atIndex writable
    have sets' := sets.change ground table (.resize i e size atIndex writable fits root entries)
    refine names.editSet table sets live entries ⟨rfl, rfl, writable⟩ sets' ?_ root
      (names.plain i e live) rfl (.inl rfl)
    rw [root _ ok.directory, if_pos rfl]
    exact onlySet_resized
  | rename i e path name renames root entries =>
    have live : fs.Live i e := ⟨renames.atIndex, renames.writable⟩
    have ok := table.entries i e renames.atIndex renames.writable
    have sets' := sets.change ground table (.rename i e path name renames root entries)
    refine names.editSet table sets live entries ⟨rfl, rfl, renames.writable⟩ sets' ?_ root
      (plainName_of_parsed renames.parsed) rfl (.inr (absent_of_find renames.parsed renames.absent))
    rw [root _ ok.directory, if_pos rfl]
    exact onlySet_renamed

omit sets in
theorem Names.created (created : Created m d₀ fs fs' c)
    (room : fs.rootEntries.length < maxRootEntries) : Names m d₀ fs' := by
  obtain ⟨z, dirEdit, set⟩ := DirEdit.created table names.sectors ground created
  obtain ⟨planned, -, entries⟩ := created
  rw [if_pos room] at entries
  exact names.create (e := c.entry m) dirEdit set (plainName_of_parsed planned.name) rfl planned.absent entries

end Changes

section Runs

variable (ground : Ground m d₀)

include ground

theorem Names.edits (edits : Edits m d₀ w w') (table : Table m d₀ w.fs w.cells)
    (sets : Sets w.fs) (names : Names m d₀ w.fs) : Names m d₀ w'.fs := by
  induction edits with
  | refl => exact names
  | tail before last ih =>
    have steps := Edits.steps before
    have table' := table.steps ground steps
    have sets' := Sets.steps ground steps table sets
    exact ih.change ground table' sets' (last.dirChange ground table')

/-- A call keeps names apart if its path is in the table or the table has room. -/
theorem Names.acts (table : Table m d₀ fs cells)
    (sets : Sets fs) (names : Names m d₀ fs) (acts : Acts m d₀ fs cells path fs')
    (room : (findExfatRootEntry fs.rootEntries path).isSome ∨ fs.rootEntries.length < maxRootEntries) :
    Names m d₀ fs' := by
  cases acts with
  | edits edits =>
    obtain ⟨cells', edits⟩ := edits
    exact names.edits ground edits table sets
  | creates plan fits edits =>
    obtain ⟨planned, -, -⟩ := planCreation_spec ground table.agree plan
    obtain ⟨cells', edits⟩ := edits
    have create : Step m d₀ ⟨fs, cells⟩ _ := .create _ planned fits
    have table' := Table.step ground create table
    have sets' := Sets.step ground create table sets
    have created : Created m d₀ fs ⟨_, _⟩ _ :=
      ⟨planned, fun lba root => root.create ground table planned, (if_pos fits).symm⟩
    have names' := names.created ground table created fits
    exact names'.edits ground edits table' sets'
  | orphans plan full isFs =>
    rw [planCreation_absent plan] at room
    obtain none | fits := room
    · cases none
    · omega

end Runs

section Mount

variable {d d' : Device} (ground : Ground m d) (done : MountDone m d entries fs) (views : NewFileViews m d d')
  (sectors : ∀ lba, RootSector m d lba → SectorOk (d.data lba))

include ground done

theorem MountDone.root : RootSector m d m.exfat.transaction.directoryLba := by
  obtain ⟨r, ⟨i, b, j, chain, within, foundAt⟩, isLba, -⟩ := done.planned.slot ground
  exact ⟨i, b, j, chain, within, isLba.trans foundAt.lba⟩

include views sectors

/-- A set of `NEW.TXT` in the slots that the mount found is one edit of the directory. -/
theorem MountDone.setEdit
    (set : SetAt s m.exfat.transaction.directoryByteOffset newTxt (m.newClusters.headD 0) size)
    (only : OnlySet m.exfat.transaction.directoryByteOffset (d'.data m.exfat.transaction.directoryLba) s) :
    ∃ z, DirEdit m d d (d'.put m.exfat.transaction.directoryLba s) m.exfat.transaction.directoryLba z ∧
      SetAt s (z * 32) newTxt (m.newClusters.headD 0) size := by
  have root := done.root ground
  obtain ⟨r, ⟨i, b, j, -, -, foundAt⟩, isLba, isOffset⟩ := done.planned.slot ground
  rw [← foundAt.lba, ← isLba] at foundAt
  have only₀ : OnlySet (r.slot * 32) (d.data m.exfat.transaction.directoryLba) s := by
    rw [isOffset] at only
    intro k outside
    rw [only k outside, views.directory, isOffset]
    exact onlySet_write Buf.length_slice k outside
  rw [isOffset] at set
  refine ⟨r.slot, ⟨root, ?_, ?_⟩, set⟩
  · rw [Device.put_data_self]
    exact .create (sectors _ root) foundAt.inside only₀ foundAt.triple foundAt.first set
  · intro lba isRoot elsewhere
    refine (Device.put_data_other elsewhere).trans ?_
    obtain ⟨i', c, j', chain', within', rfl⟩ := isRoot
    exact views.other c j' (exfatResolveCluster_valid chain') within' elsewhere
      fun k => ground.apart i' k c chain'

theorem MountDone.resizedEdit :
    ∃ z, DirEdit m d d (d'.put m.exfat.transaction.directoryLba
        (resizedEntrySet (d'.data m.exfat.transaction.directoryLba) m.exfat.transaction.directoryByteOffset 0))
        m.exfat.transaction.directoryLba z ∧
      SetAt ((d'.put m.exfat.transaction.directoryLba
        (resizedEntrySet (d'.data m.exfat.transaction.directoryLba)
          m.exfat.transaction.directoryByteOffset 0)).data m.exfat.transaction.directoryLba) (z * 32) newTxt
        (m.newClusters.headD 0) 0 := by
  have set := (done.setAt ground views).resize done.fits (by norm_num : 0 < 2 ^ 64)
  rw [Device.put_data_self]
  exact done.setEdit ground views sectors set onlySet_resized

theorem MountDone.sectorOk (root : RootSector m d lba) : SectorOk ((mountedFs m entries d').dev.data lba) := by
  unfold mountedFs
  split
  · -- Without room in the table the set keeps its size.
    obtain ⟨z, edit, -⟩ := done.setEdit ground views sectors (done.setAt ground views) fun _ _ => rfl
    rw [Device.put_self] at edit
    exact edit.sectorOk sectors root
  · obtain ⟨z, edit, -⟩ := done.resizedEdit ground views sectors
    exact edit.sectorOk sectors root

end Mount

end TangPingOS
