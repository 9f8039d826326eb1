import TangPingOS.Exfat.Ownership

/-! # The sets of the root directory

What a step does to the sectors of the root directory and to the entries that point
into it, said once, and from that: every writable file has a set of its own on disk,
with the name, the first cluster and the size its entry says.
-/

namespace TangPingOS

open Lib

variable {name : Bytes} {c : Creation} {d d' d₀ : Device} {fs fs' : Fs} {cs : List Nat}
  {entries : List RootEntry} {m : Mount} {first i off size : Nat} {cells : Nat → List Nat} {e e' : RootEntry}
  {s s' : Sector} {w w' : World}

def RootSector (m : Mount) (d₀ : Device) (lba : Nat) : Prop :=
  ∃ i b j, rootChain m d₀ i = some b ∧ j < m.sectorsPerCluster ∧ lba = heapSector m b j

def Creation.set (c : Creation) : Bytes :=
  (encodeExfatFileEntries c.name (c.clusters.headD 0) 0).slice 0 96

/-- A set is written into free slots. Its file is entered in the table if there is room. -/
structure Created (m : Mount) (d₀ : Device) (fs fs' : Fs) (c : Creation) : Prop where
  planned : Planned m d₀ fs c
  root : ∀ lba, RootSector m d₀ lba → fs'.dev.data lba =
    if lba = c.lba then (fs.dev.data lba).write c.offset c.set else fs.dev.data lba
  entries : fs'.rootEntries = if fs.rootEntries.length < maxRootEntries then
    fs.rootEntries ++ [c.entry m] else fs.rootEntries

/-- What a step that creates nothing does to the root directory and to the table. -/
inductive DirChange (m : Mount) (d₀ : Device) (fs fs' : Fs) : Prop where
  /-- The directory stays, and so do the entries but for a capacity. -/
  | keep (root : ∀ lba, RootSector m d₀ lba → fs'.dev.data lba = fs.dev.data lba)
      (entries : fs'.rootEntries = fs.rootEntries ∨ ∃ i e capacity, fs.rootEntries[i]? = some e ∧
        fs'.rootEntries = fs.rootEntries.set i { e with capacity := capacity })
  /-- The set of a file is marked deleted, and its entry becomes blank. -/
  | unlink (i : Nat) (e : RootEntry) (atIndex : fs.rootEntries[i]? = some e) (writable : e.writable)
      (s : Sector)
      (deleted : (Patch.deleteEntries e.directoryByteOffset 3).apply (fs.dev.data e.directoryLba) = some s)
      (root : ∀ lba, RootSector m d₀ lba → fs'.dev.data lba =
        if lba = e.directoryLba then s else fs.dev.data lba)
      (entries : fs'.rootEntries = fs.rootEntries.set i {})
  | resize (i : Nat) (e : RootEntry) (size : Nat) (atIndex : fs.rootEntries[i]? = some e)
      (writable : e.writable) (fits : size ≤ e.capacity)
      (root : ∀ lba, RootSector m d₀ lba → fs'.dev.data lba =
        if lba = e.directoryLba then resizedEntrySet (fs.dev.data lba) e.directoryByteOffset size
        else fs.dev.data lba)
      (entries : fs'.rootEntries = fs.rootEntries.set i { e with size := size })
  | rename (i : Nat) (e : RootEntry) (path name : Bytes) (renames : Renames m fs path i e name)
      (root : ∀ lba, RootSector m d₀ lba → fs'.dev.data lba =
        if lba = e.directoryLba then renamedEntrySet (fs.dev.data lba) e.directoryByteOffset name
        else fs.dev.data lba)
      (entries : fs'.rootEntries = fs.rootEntries.set i { e with name := name })

section Root

variable (ground : Ground m d₀) (agree : SameReserved m d₀ d) {lba : Nat} (root : RootSector m d₀ lba)

include ground agree root

section

variable (valid : ∀ c ∈ cs, exfatClusterValid m c) (apart : ∀ c ∈ cs, ¬ Reserved m d₀ c)

include valid apart

theorem RootSector.outside : ¬ InClusters m cs lba := by
  obtain ⟨i, b, j, chain, within, rfl⟩ := root
  rintro ⟨c, member, k, inside, same⟩
  obtain ⟨rfl, -⟩ := (agree.volume ground.vol).heapSector_inj (exfatResolveCluster_valid chain)
    (valid c member) within inside same
  exact apart _ member (.inl ⟨i, chain⟩)

theorem RootSector.zero : (zeroClusters m cs d).data lba = d.data lba :=
  if_neg (root.outside ground agree valid apart)

end

theorem RootSector.edit {set : Bool} (valid : ∀ e ∈ edits, exfatClusterValid m e.1) :
    (Device.patchAll (editPatches m d₀ set edits) d).data lba = d.data lba := by
  obtain ⟨i, b, j, chain, within, rfl⟩ := root
  exact editPatches_data_other ground (agree.volume ground.vol) valid
    (exfatResolveCluster_valid chain) within (ground.root_not_bitmap chain)

theorem RootSector.fat {c v} (valid : exfatClusterValid m c) :
    (d.patch (fatPatch m c v).1 (fatPatch m c v).2).data lba = d.data lba := by
  obtain ⟨i, b, j, chain, within, rfl⟩ := root
  apply Device.patch_data_other
  exact ((agree.volume ground.vol).fatSector_ne_heapSector valid (exfatResolveCluster_valid chain)
    within).symm

end Root

theorem Device.patch_data :
    (d.patch lba p).data other =
      if other = lba then (p.apply (d.data lba)).getD (d.data lba) else d.data other := by
  split
  · rename_i here
    rw [here, Device.patch, Device.put_data_self]
  · rename_i elsewhere
    exact Device.patch_data_other p elsewhere

theorem Device.put_data : (d.put lba s).data other = if other = lba then s else d.data other := by
  split
  · rename_i here
    rw [here, Device.put_data_self]
  · rename_i elsewhere
    exact Device.put_data_other elsewhere

section Step

variable (ground : Ground m d₀) (table : Table m d₀ fs cells) {lba : Nat} (root : RootSector m d₀ lba)

include ground table root

theorem RootSector.create (planned : Planned m d₀ fs c) :
    (c.device m d₀ fs.dev).data lba =
      if lba = c.lba then (fs.dev.data lba).write c.offset c.set else fs.dev.data lba := by
  have valid := planned.valid
  have apart := planned.apart table ground
  have agree₁ := table.agree.zero ground valid
  have inside : c.offset + c.set.length ≤ 512 := by
    exact planned.fits
  have staged : (Device.patchAll (editPatches m d₀ true (linkWords c.clusters))
      (zeroClusters m c.clusters fs.dev)).data lba = fs.dev.data lba := by
    rw [root.edit ground agree₁ (linkWords_valid valid), root.zero ground table.agree valid apart]
  rw [Creation.device, Creation.patches, Device.patchAll_append, Device.patchAll_cons, Device.patchAll,
    Device.patch_data]
  split
  · rename_i here
    subst here
    rw [← Creation.set, bytes_apply inside, Option.getD_some, staged]
  · exact staged

theorem RootSector.extend (validLast : exfatClusterValid m last)
    (valid : ∀ b ∈ new, exfatClusterValid m b) (apart : ∀ b ∈ new, ¬ Reserved m d₀ b)
    (apartLast : ¬ Reserved m d₀ last) :
    (extendedDevice m d₀ last new fs.dev).data lba = fs.dev.data lba := by
  have agree₁ := table.agree.zero ground valid
  have agree₂ : SameReserved m d₀ ((zeroClusters m new fs.dev).patch (fatPatch m last (new.headD 0)).1
      (fatPatch m last (new.headD 0)).2) := by
    apply agree₁.next (Device.sameShape_patch _ _ _)
    intro c reserved
    rw [fatWord_patch_fat, if_neg]
    rintro rfl
    exact apartLast reserved
  rw [extendedDevice, extendPatches, Device.patchAll_cons,
    root.edit ground agree₂ (linkWords_valid valid), root.fat ground agree₁ validLast,
    root.zero ground table.agree valid apart]

theorem RootSector.unlink
    (atIndex : fs.rootEntries[i]? = some e) (writable : e.writable) (begins : kept <+: cells i) :
    (unlinkedDevice m d₀ e kept fs.dev).data lba =
      if lba = e.directoryLba then
        ((Patch.deleteEntries e.directoryByteOffset 3).apply (fs.dev.data lba)).getD (fs.dev.data lba)
      else fs.dev.data lba := by
  have valid : ∀ b ∈ kept, exfatClusterValid m b := fun b member =>
    table.cell_valid (begins.subset member)
  have apart : ∀ b ∈ kept, ¬ Reserved m d₀ b := fun b member =>
    table.cell_not_reserved ground (begins.subset member)
  obtain ⟨k, b, j, chain, within, isLba⟩ := (table.entries i e atIndex writable).directory
  have agree₁ : SameReserved m d₀
      (fs.dev.patch e.directoryLba (.deleteEntries e.directoryByteOffset 3)) := by
    apply table.agree.next (fs.dev.sameShape_patch _ _)
    intro c reserved
    rw [isLba]
    exact (root_put ground table.agree chain within _).1 c (ground.reserved_used reserved).1
  have agree₂ := edit_agree ground agree₁ false (freeWords_valid valid)
    (fun w member => by
      obtain ⟨c, -, rfl⟩ := List.mem_map.mp member
      norm_num)
    fun w member => apart w.1 (mem_of_mem_freeWords member)
  rw [unlinkedDevice, unlinkPatches, Device.patchAll_cons, root.zero ground agree₂ valid apart,
    root.edit ground agree₁ (freeWords_valid valid), Device.patch_data]
  split
  · rename_i here
    rw [here]
  · rfl

theorem RootSector.data (only : DataOnly m (cells i) fs.dev d') : d'.data lba = fs.dev.data lba :=
  only.outside lba (root.outside ground table.agree (fun _ member => table.cell_valid member)
    fun _ member => table.cell_not_reserved ground member)

end Step

theorem Edit.dirChange (ground : Ground m d₀)
    (edit : Edit m d₀ w w') (table : Table m d₀ w.fs w.cells) : DirChange m d₀ w.fs w'.fs := by
  cases edit with
  | extend atIndex writable begins isLast found few grows =>
    obtain ⟨-, -, -, -, free⟩ := findExfatFreeClusterRun_spec ground table.agree found
    have last := begins.subset (List.mem_of_getLast? isLast)
    apply DirChange.keep
    · intro lba root
      exact root.extend ground table (table.cell_valid last) (fun b member => (free b member).valid)
        (fun b member => table.free_not_reserved ground (free b member))
        (table.cell_not_reserved ground last)
    · exact .inr ⟨_, _, _, atIndex, rfl⟩
  | unlink atIndex writable begins inUse =>
    obtain ⟨s, deleted⟩ := Option.isSome_iff_exists.mp inUse
    refine .unlink _ _ atIndex writable s deleted (fun lba root => ?_) rfl
    rw [root.unlink ground table atIndex writable begins]
    split
    · rename_i here
      rw [here, deleted, Option.getD_some]
    · rfl
  | data i only => exact .keep (fun lba root => root.data ground table only) (.inl rfl)
  | resize atIndex writable fits =>
    refine .resize _ _ _ atIndex writable fits (fun lba root => ?_) rfl
    rw [Device.put_data]
    split
    · rename_i here
      rw [here]
    · rfl
  | rename renames =>
    refine .rename _ _ _ _ renames (fun lba root => ?_) rfl
    rw [renamedFs, Device.put_data]
    split
    · rename_i here
      rw [here]
    · rfl

theorem Step.cases (ground : Ground m d₀) (step : Step m d₀ w w') (table : Table m d₀ w.fs w.cells) :
    Edit m d₀ w w' ∨ ∃ c, Created m d₀ w.fs w'.fs c := by
  cases step with
  | create c planned room =>
    exact .inr ⟨c, planned, fun lba root => root.create ground table planned, (if_pos room).symm⟩
  | orphan c planned full =>
    exact .inr ⟨c, planned, fun lba root => root.create ground table planned,
      (if_neg (Nat.not_lt.mpr full)).symm⟩
  | extend atIndex writable begins isLast found few grows =>
    exact .inl (.extend atIndex writable begins isLast found few grows)
  | unlink atIndex writable begins inUse => exact .inl (.unlink atIndex writable begins inUse)
  | data i only => exact .inl (.data i only)
  | resize atIndex writable fits => exact .inl (.resize atIndex writable fits)
  | rename renames => exact .inl (.rename renames)

def RootEntry.SetOn (e : RootEntry) (d : Device) : Prop :=
  SetAt (d.data e.directoryLba) e.directoryByteOffset e.name e.firstCluster e.size

def RootEntry.Apart (e e' : RootEntry) : Prop :=
  e.directoryLba = e'.directoryLba →
    e.directoryByteOffset + 96 ≤ e'.directoryByteOffset ∨ e'.directoryByteOffset + 96 ≤ e.directoryByteOffset

theorem RootEntry.Apart.symm (apart : e.Apart e') : e'.Apart e :=
  fun same => (apart same.symm).symm

theorem SetAt.inUse (set : SetAt s off name first size) (aligned : off % 32 = 0) (low : off / 32 ≤ k)
    (high : k < off / 32 + 3) : exfatDirectorySlotFree s k = false := by
  obtain rfl | rfl | rfl : k = off / 32 ∨ k = off / 32 + 1 ∨ k = off / 32 + 2 := by omega
  · have here : off / 32 * exfatEntrySize = off := by
      unfold exfatEntrySize
      omega
    simp only [exfatDirectorySlotFree, here, set.fileMark]
    decide
  · have here : (off / 32 + 1) * exfatEntrySize = off + 32 := by
      unfold exfatEntrySize
      omega
    simp only [exfatDirectorySlotFree, here, set.streamMark]
    decide
  · have here : (off / 32 + 2) * exfatEntrySize = off + 64 := by
      unfold exfatEntrySize
      omega
    simp only [exfatDirectorySlotFree, here, set.nameMark]
    decide

theorem SetAt.apart_free (set : SetAt s off name first size) (aligned : off % 32 = 0) (free : FreeTriple s z) :
    off + 96 ≤ z * 32 ∨ z * 32 + 96 ≤ off := by
  have used : ∀ k, off / 32 ≤ k → k < off / 32 + 3 → ¬ exfatDirectorySlotFree s k := by
    intro k low high
    rw [set.inUse aligned low high]
    decide
  by_contra overlap
  by_cases before : z ≤ off / 32
  · obtain here | here | here : off / 32 = z ∨ off / 32 = z + 1 ∨ off / 32 = z + 2 := by omega
    · exact used z (by omega) (by omega) free.1
    · exact used (z + 1) (by omega) (by omega) free.2.1
    · exact used (z + 2) (by omega) (by omega) free.2.2
  · exact used z (by omega) (by omega) free.1

/-- Nothing but the 96 bytes from `off` on differs. -/
def OnlySet (off : Nat) (s s' : Sector) : Prop := ∀ i, i < off ∨ off + 96 ≤ i → s'.get i = s.get i

theorem OnlySet.setAt (only : OnlySet off s s') (set : SetAt s off' name first size)
    (apart : off + 96 ≤ off' ∨ off' + 96 ≤ off) : SetAt s' off' name first size :=
  set.congr fun i small => only (off' + i) (by omega)

theorem onlySet_write (length : src.length = 96) :
    OnlySet off s (s.write off src) := fun i outside => Buf.get_write_outside (by omega)

theorem onlySet_resized : OnlySet off s (resizedEntrySet s off size) := by
  intro i outside
  rw [resizedEntrySet, get_sealEntrySet (by omega), Buf.get_write_outside (by rw [length_le64]; omega),
    Buf.get_write_outside (by rw [length_le64]; omega)]

theorem onlySet_renamed : OnlySet off s (renamedEntrySet s off name) := by
  intro i outside
  rw [renamedEntrySet, get_sealEntrySet (by omega),
    Buf.get_write_outside (by rw [length_exfatNameEntry]; omega),
    Buf.get_write_outside (by rw [length_le16]; omega), Buf.get_set_other (by omega)]

theorem deleteEntries_apply (inside : off + 96 ≤ 512) :
    (Patch.deleteEntries off 3).apply s = deleteEntriesFrom off 3 s := by
  apply if_neg
  unfold wrap64 exfatEntrySize
  omega

section

variable (deleted : (Patch.deleteEntries off 3).apply s = some s') (inside : off + 96 ≤ 512)

include deleted inside

/-- Deleting a set takes the in-use bit of its three entries away. -/
theorem deleteEntries_spec :
    s'.get i = if i = off ∨ i = off + 32 ∨ i = off + 64 then s.get i &&& 0x7f else s.get i := by
  rw [deleteEntries_apply inside] at deleted
  simp only [deleteEntriesFrom] at deleted
  split at deleted
  · cases deleted
  split at deleted
  · cases deleted
  split at deleted
  · cases deleted
  rw [Option.some.injEq] at deleted
  subst deleted
  simp only [Buf.get_set, exfatEntrySize]
  by_cases first : i = off
  · subst first
    simp [Nat.add_assoc, show i < 512 by omega]
  by_cases second : i = off + 32
  · subst second
    simp [show off + 32 < 512 by omega]
  by_cases third : i = off + 64
  · subst third
    simp [Nat.add_assoc, show off + 64 < 512 by omega]
  · simp [first, second, third]

theorem onlySet_deleted : OnlySet off s s' := by
  intro i outside
  rw [deleteEntries_spec deleted inside, if_neg (by omega)]

end

theorem SetAt.deletable (set : SetAt s off name first size) (inside : off + 96 ≤ 512) :
    ((Patch.deleteEntries off 3).apply s).isSome := by
  rw [deleteEntries_apply inside]
  have second : (s.set off (s.get off &&& 0x7f)).get (off + exfatEntrySize) = 0xc0 := by
    rw [Buf.get_set_other (by unfold exfatEntrySize; omega)]
    exact set.streamMark
  have third (v : UInt8) : ((s.set off (s.get off &&& 0x7f)).set (off + exfatEntrySize) v).get
      (off + exfatEntrySize + exfatEntrySize) = 0xc1 := by
    rw [Buf.get_set_other (by unfold exfatEntrySize; omega),
      Buf.get_set_other (by unfold exfatEntrySize; omega)]
    exact set.nameMark
  rw [deleteEntriesFrom, if_neg (by rw [set.fileMark]; decide), deleteEntriesFrom,
    if_neg (by rw [second]; decide), deleteEntriesFrom, if_neg (by rw [third]; decide)]
  rfl

/-- Every writable file has a set of its own on disk. -/
structure Sets (fs : Fs) : Prop where
  on : ∀ i e, fs.Live i e → e.SetOn fs.dev
  apart : ∀ i j e e', i ≠ j → fs.Live i e → fs.Live j e' → e.Apart e'

theorem Fs.Live.setOn (live : fs.Live i e) (sets : Sets fs) :
    e.SetOn fs.dev := sets.on i e live

theorem Sets.rewrite (sets : Sets fs) (table : Table m d₀ fs cells) (live : fs.Live i e)
    (root : ∀ lba, RootSector m d₀ lba → fs'.dev.data lba =
      if lba = e.directoryLba then s else fs.dev.data lba)
    (only : OnlySet e.directoryByteOffset (fs.dev.data e.directoryLba) s)
    (entries : fs'.rootEntries = fs.rootEntries.set i e')
    (new : e'.writable → e'.directoryLba = e.directoryLba ∧
      e'.directoryByteOffset = e.directoryByteOffset ∧ e'.SetOn fs'.dev) : Sets fs' := by
  have cases {j : Nat} {x : RootEntry} (here : fs'.Live j x) : j = i ∧ x = e' ∨ j ≠ i ∧ fs.Live j x := by
    have found := here.1
    rw [entries] at found
    obtain now | ⟨other, old⟩ := getElem?_set_cases found
    · exact .inl now
    · exact .inr ⟨other, old, here.2⟩
  constructor
  · intro j x here
    obtain ⟨rfl, rfl⟩ | ⟨other, old⟩ := cases here
    · exact (new here.2).2.2
    · have apart := sets.apart i j e x other.symm live old
      unfold RootEntry.SetOn
      rw [root _ (table.entries j x old.1 old.2).directory]
      split
      · rename_i same
        have on := old.setOn sets
        rw [RootEntry.SetOn, same] at on
        exact only.setAt on (apart same.symm)
      · exact old.setOn sets
  · intro j k x y other liveX liveY
    obtain ⟨rfl, rfl⟩ | ⟨otherX, oldX⟩ := cases liveX
    · obtain ⟨rfl, rfl⟩ | ⟨-, oldY⟩ := cases liveY
      · exact absurd rfl other
      · obtain ⟨lba, offset, -⟩ := new liveX.2
        unfold RootEntry.Apart
        rw [lba, offset]
        exact sets.apart j k e y other live oldY
    · obtain ⟨rfl, rfl⟩ | ⟨-, oldY⟩ := cases liveY
      · obtain ⟨lba, offset, -⟩ := new liveY.2
        unfold RootEntry.Apart
        rw [lba, offset]
        exact sets.apart j k x e other oldX live
      · exact sets.apart j k x y other oldX oldY

theorem Creation.setAt (planned : Planned m d₀ fs c) : SetAt (s.write c.offset c.set) c.offset c.name (c.clusters.headD 0) 0 := by
  obtain ⟨b, rest, split⟩ := List.exists_cons_of_ne_nil planned.some_
  have small : c.clusters.headD 0 < 2 ^ 32 := by
    rw [split, List.headD_cons]
    obtain ⟨-, -, below⟩ := exfatClusterValid_iff.mp (planned.free b (by rw [split]; simp)).valid
    have bounded : m.clusterEnd < 2 ^ 32 := Nat.mod_lt _ (by norm_num)
    omega
  exact (setAt_encodeExfatFileEntries small (by norm_num)).write s planned.fits

theorem Planned.free_slots (planned : Planned m d₀ fs c) :
    ∃ z, c.offset = z * 32 ∧ FreeTriple (fs.dev.data c.lba) z := by
  obtain ⟨r, ⟨i, b, j, -, -, foundAt⟩, lba, offset⟩ := planned.slot
  refine ⟨r.slot, offset, ?_⟩
  rw [lba, foundAt.lba]
  exact foundAt.triple

theorem Sets.create (ground : Ground m d₀)
    (sets : Sets fs) (table : Table m d₀ fs cells) (created : Created m d₀ fs fs' c) :
    Sets fs' := by
  obtain ⟨planned, root, entries⟩ := created
  have lba := planned.lba ground table.agree
  have cases {j : Nat} {x : RootEntry} (here : fs'.Live j x) :
      j = fs.rootEntries.length ∧ x = c.entry m ∨ fs.Live j x := by
    have found := here.1
    rw [entries] at found
    split at found
    · obtain now | ⟨-, old⟩ := getElem?_append_cases found
      · exact .inl now
      · exact .inr ⟨old, here.2⟩
    · exact .inr ⟨found, here.2⟩
  obtain ⟨z, offset, free⟩ := planned.free_slots
  have fresh {j : Nat} {x : RootEntry} (old : fs.Live j x) : x.Apart (c.entry m) := by
    intro same
    have on := old.setOn sets
    rw [RootEntry.SetOn, same] at on
    have apart := on.apart_free (table.entries j x old.1 old.2).slot free
    rw [← offset] at apart
    exact apart
  constructor
  · intro j x here
    unfold RootEntry.SetOn
    obtain ⟨-, rfl⟩ | old := cases here
    · show SetAt (fs'.dev.data c.lba) c.offset c.name (c.clusters.headD 0) 0
      rw [root c.lba lba, if_pos rfl]
      exact Creation.setAt planned
    · rw [root _ (table.entries j x old.1 old.2).directory]
      split
      · rename_i same
        have on := old.setOn sets
        rw [RootEntry.SetOn, same] at on
        rw [same]
        have length : c.set.length = 96 := by rw [Creation.set, Buf.length_slice]
        exact (onlySet_write length).setAt on (fresh old same).symm
      · exact old.setOn sets
  · intro j k x y other liveX liveY
    obtain ⟨rfl, rfl⟩ | oldX := cases liveX
    · obtain ⟨rfl, -⟩ | oldY := cases liveY
      · exact absurd rfl other
      · exact (fresh oldY).symm
    · obtain ⟨-, rfl⟩ | oldY := cases liveY
      · exact fresh oldX
      · exact sets.apart j k x y other oldX oldY

theorem Sets.keep (sets : Sets fs) (table : Table m d₀ fs cells)
    (root : ∀ lba, RootSector m d₀ lba → fs'.dev.data lba = fs.dev.data lba)
    (entries : fs'.rootEntries = fs.rootEntries ∨ ∃ i e capacity, fs.rootEntries[i]? = some e ∧
      fs'.rootEntries = fs.rootEntries.set i { e with capacity := capacity }) : Sets fs' := by
  have same {j : Nat} {x : RootEntry} (here : fs'.Live j x) :
      ∃ e, fs.Live j e ∧ x = { e with capacity := x.capacity } := by
    have found := here.1
    obtain kept | ⟨i, e, capacity, atIndex, changed⟩ := entries
    · rw [kept] at found
      exact ⟨x, ⟨found, here.2⟩, rfl⟩
    · rw [changed] at found
      obtain ⟨rfl, rfl⟩ | ⟨-, old⟩ := getElem?_set_cases found
      · exact ⟨e, ⟨atIndex, here.2⟩, rfl⟩
      · exact ⟨x, ⟨old, here.2⟩, rfl⟩
  constructor
  · intro j x here
    obtain ⟨e, old, isX⟩ := same here
    have on := old.setOn sets
    rw [isX]
    show SetAt (fs'.dev.data e.directoryLba) _ _ _ _
    rw [root _ (table.entries j e old.1 old.2).directory]
    exact on
  · intro j k x y other liveX liveY
    obtain ⟨e, oldX, isX⟩ := same liveX
    obtain ⟨e', oldY, isY⟩ := same liveY
    rw [isX, isY]
    exact sets.apart j k e e' other oldX oldY

theorem Sets.change (ground : Ground m d₀) (table : Table m d₀ fs cells) (change : DirChange m d₀ fs fs')
    (sets : Sets fs) : Sets fs' := by
  cases change with
  | keep root entries => exact sets.keep table root entries
  | unlink i e atIndex writable s deleted root entries =>
    have ok := table.entries i e atIndex writable
    exact sets.rewrite table ⟨atIndex, writable⟩ root (onlySet_deleted deleted ok.offset) entries nofun
  | resize i e size atIndex writable fits root entries =>
    have ok := table.entries i e atIndex writable
    have on : e.SetOn fs.dev := sets.on i e ⟨atIndex, writable⟩
    have small : size < 2 ^ 64 := by
      have capacity := ok.capacity
      have few := Nat.mul_le_mul_right m.clusterSize ok.few
      have bound := ground.fits
      omega
    refine sets.rewrite table ⟨atIndex, writable⟩
      (s := resizedEntrySet (fs.dev.data e.directoryLba) e.directoryByteOffset size) ?_
      onlySet_resized entries fun _ => ⟨rfl, rfl, ?_⟩
    · intro lba isRoot
      rw [root lba isRoot]
      split
      · rename_i here
        rw [here]
      · rfl
    · show SetAt (fs'.dev.data e.directoryLba) e.directoryByteOffset e.name e.firstCluster size
      rw [root _ ok.directory, if_pos rfl]
      exact on.resize ok.offset small
  | rename i e path name renames root entries =>
    have ok := table.entries i e renames.atIndex renames.writable
    have on : e.SetOn fs.dev := sets.on i e ⟨renames.atIndex, renames.writable⟩
    refine sets.rewrite table ⟨renames.atIndex, renames.writable⟩
      (s := renamedEntrySet (fs.dev.data e.directoryLba) e.directoryByteOffset name) ?_
      onlySet_renamed entries fun _ => ⟨rfl, rfl, ?_⟩
    · intro lba isRoot
      rw [root lba isRoot]
      split
      · rename_i here
        rw [here]
      · rfl
    · show SetAt (fs'.dev.data e.directoryLba) e.directoryByteOffset name e.firstCluster e.size
      rw [root _ ok.directory, if_pos rfl]
      exact on.rename ok.offset name

theorem Sets.step (ground : Ground m d₀)
    (step : Step m d₀ w w') (table : Table m d₀ w.fs w.cells) (sets : Sets w.fs) : Sets w'.fs := by
  obtain edit | ⟨c, created⟩ := step.cases ground table
  · exact sets.change ground table (edit.dirChange ground table)
  · exact sets.create ground table created

theorem Sets.steps (ground : Ground m d₀)
    (steps : Steps m d₀ w w') (table : Table m d₀ w.fs w.cells) (sets : Sets w.fs) : Sets w'.fs := by
  induction steps with
  | refl => exact sets
  | tail before last ih =>
    have table' := table.steps ground before
    exact ih.step ground last table'

/-- After the mount `NEW.TXT` is the only writable file. -/
theorem MountDone.live_eq (done : MountDone m d entries fs) (live : (mountedFs m entries d').Live j x) :
    entries.length < maxRootEntries ∧ j = entries.length ∧ x = newFileEntry m := by
  have readOnly (found : entries[j]? = some x) : False := by
    have never := done.readOnly x (List.mem_of_getElem? found)
    rw [live.2] at never
    cases never
  obtain ⟨atIndex, -⟩ := live
  unfold mountedFs at atIndex
  split at atIndex
  · exact (readOnly atIndex).elim
  · rename_i room
    obtain now | ⟨-, old⟩ := getElem?_append_cases atIndex
    · exact ⟨Nat.not_le.mp room, now⟩
    · exact (readOnly old).elim

theorem MountDone.sets (ground : Ground m d) (done : MountDone m d entries fs) (views : NewFileViews m d d') :
    Sets (mountedFs m entries d') := by
  constructor
  · intro j x live
    obtain ⟨room, -, rfl⟩ := done.live_eq live
    have set := (done.setAt ground views).resize done.fits (by norm_num : 0 < 2 ^ 64)
    rw [mountedFs, if_neg (Nat.not_le.mpr room)]
    show SetAt ((d'.put _ _).data m.exfat.transaction.directoryLba) _ _ _ _
    rw [Device.put_data_self]
    exact set
  · intro j k x y other liveX liveY
    exact absurd ((done.live_eq liveX).2.1.trans (done.live_eq liveY).2.1.symm) other

theorem Mounted.sets (start : Mounted d m fs) (ops : List FileOp) :
    ∃ cells, Table m d (runOps m fs ops) cells ∧ Sets (runOps m fs ops) := by
  have ground := start.ground
  obtain ⟨d', views, isFs⟩ := start.done.start ground start.ready
  have table := start.done.table ground views
  have sets := start.done.sets ground views
  rw [← isFs] at table sets
  obtain ⟨cells, steps⟩ := runOps_reaches ground start.ready ops table
  exact ⟨cells, table.steps ground steps, Sets.steps ground steps table sets⟩

end TangPingOS
