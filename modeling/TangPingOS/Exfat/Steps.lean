import TangPingOS.Exfat.Outcomes

/-! # Steps of a mounted volume

The states the file operations can bring about, as steps of a file system
together with the clusters its entries hold. Every operation is a sequence of such
steps, and the table invariant holds after each.
-/

namespace TangPingOS

open Lib

variable {d' : Device} {cs kept new : List Nat} {entries : List RootEntry} {c i j last : Nat} {p : Nat → Prop}
  {e e' : RootEntry}

theorem fatWord_fits (valid : ∀ c ∈ cs, exfatClusterValid m c) : ∀ e ∈ linkWords cs, e.2 < 2 ^ 32 := by
  have small : ∀ c ∈ cs, c < 2 ^ 32 := fun c member => by
    obtain ⟨_, _, below⟩ := exfatClusterValid_iff.mp (valid c member)
    have : m.clusterEnd < 2 ^ 32 := Nat.mod_lt _ (by norm_num)
    omega
  clear valid
  induction cs with
  | nil => simp [linkWords]
  | cons c rest ih =>
    simp only [linkWords, List.mem_cons]
    rintro e (rfl | later)
    · cases rest with
      | nil => simp [fatEnd]
      | cons b tail => exact small b (by simp)
    · exact ih (fun a member => small a (List.mem_cons_of_mem c member)) e later

theorem exists_mem_linkWords : (∃ e ∈ linkWords cs, p e.1) ↔ ∃ c ∈ cs, p c := by
  have same : (∃ c ∈ (linkWords cs).map Prod.fst, p c) ↔ ∃ c ∈ cs, p c := by
    rw [map_fst_linkWords]
  simpa using same

theorem exists_mem_freeWords : (∃ e ∈ freeWords cs, p e.1) ↔ ∃ c ∈ cs, p c := by
  simp [freeWords]

section Views

variable {m : Mount} {d₀ d : Device} (ground : Ground m d₀) (agree : SameReserved m d₀ d)

include ground in
theorem bitAt_congr (valid : exfatClusterValid m c)
    (same : ∀ i b j, bitmapChain m d₀ i = some b → j < m.sectorsPerCluster →
      d'.data (heapSector m b j) = d.data (heapSector m b j)) :
    bitAt d' (place m d₀ c) = bitAt d (place m d₀ c) := by
  obtain ⟨_, _, i, b, j, chain, within, lba⟩ := ground.place_spec valid
  simp only [bitAt, lba, same i b j chain within]

include ground agree

/-- A sector of the root directory is no FAT sector and no bitmap sector. -/
theorem root_put (chain : rootChain m d₀ i = some b) (within : j < m.sectorsPerCluster) (s : Sector) :
    (∀ c, exfatClusterValid m c → fatWord m (d.put (heapSector m b j) s) c = fatWord m d c) ∧
    (∀ c, exfatClusterValid m c →
      bitAt (d.put (heapSector m b j) s) (place m d₀ c) = bitAt d (place m d₀ c)) := by
  have vol := agree.volume ground.vol
  have validB := exfatResolveCluster_valid chain
  refine ⟨fun c valid => fatWord_put_heap vol (vol.fatCovers c valid) validB within, fun c valid => ?_⟩
  refine bitAt_congr ground valid fun k b' j' chain' within' => ?_
  refine Device.put_data_other fun same => ?_
  obtain ⟨rfl, _⟩ := vol.heapSector_inj (exfatResolveCluster_valid chain') validB within' within same
  exact ground.apart i k _ chain chain'

theorem bitAt_zeroClusters (valid : ∀ c ∈ cs, exfatClusterValid m c)
    (apart : ∀ c ∈ cs, ¬ Reserved m d₀ c) (valid' : exfatClusterValid m c) :
    bitAt (zeroClusters m cs d) (place m d₀ c) = bitAt d (place m d₀ c) :=
  bitAt_congr ground valid' fun k b _ chain within =>
    zeroClusters_data_other (agree.volume ground.vol) valid (exfatResolveCluster_valid chain) within
      fun member => apart b member (.inr ⟨k, chain⟩)

theorem edit_agree (set : Bool) (valid : ∀ e ∈ edits, exfatClusterValid m e.1)
    (small : ∀ e ∈ edits, e.2 < 2 ^ 32) (apart : ∀ e ∈ edits, ¬ Reserved m d₀ e.1) :
    SameReserved m d₀ (Device.patchAll (editPatches m d₀ set edits) d) := by
  refine agree.next (Device.sameShape_patchAll _ d) fun c reserved => ?_
  rw [fatWord_editPatches ground (agree.volume ground.vol) valid small
    (ground.vol.fatCovers c (ground.reserved_used reserved).1)]
  refine foldl_update_outside fun member => ?_
  obtain ⟨e, inEdits, rfl⟩ := List.mem_map.mp member
  exact apart e inEdits reserved

theorem Creation.views {c : Creation} (valid : ∀ b ∈ c.clusters, exfatClusterValid m b)
    (apart : ∀ b ∈ c.clusters, ¬ Reserved m d₀ b)
    (lba : ∃ i b j, rootChain m d₀ i = some b ∧ j < m.sectorsPerCluster ∧ c.lba = heapSector m b j) :
    SameReserved m d₀ (c.device m d₀ d) ∧
    (∀ x, exfatClusterValid m x →
      fatWord m (c.device m d₀ d) x = linkCells fatEnd c.clusters (fatWord m d) x) ∧
    (∀ x, exfatClusterValid m x →
      bitAt (c.device m d₀ d) (place m d₀ x) =
        if ∃ b ∈ c.clusters, SamePlace (place m d₀ x) (place m d₀ b) then true
        else bitAt d (place m d₀ x)) := by
  have agree₁ := agree.zero ground valid
  have vol₁ := agree₁.volume ground.vol
  have agree₂ := edit_agree ground agree₁ true (linkWords_valid valid) (fatWord_fits valid)
    fun e member => apart e.1 (mem_of_mem_linkWords member)
  obtain ⟨i, b, j, chain, within, isLba⟩ := lba
  have isDevice : c.device m d₀ d = (Device.patchAll (editPatches m d₀ true (linkWords c.clusters))
      (zeroClusters m c.clusters d)).patch (heapSector m b j)
        (.bytes c.offset ((encodeExfatFileEntries c.name (c.clusters.headD 0) 0).slice 0 96)) := by
    rw [Creation.device, Creation.patches, Device.patchAll_append, isLba, Device.patchAll_cons,
      Device.patchAll]
  rw [isDevice]
  have put := root_put ground agree₂ chain within
  refine ⟨?_, fun x validX => ?_, fun x validX => ?_⟩
  · exact agree₂.next (Device.sameShape_patch _ _ _) fun x reserved =>
      (put _).1 x (ground.reserved_used reserved).1
  · rw [Device.patch, (put _).1 x validX, fatWord_editPatches ground vol₁ (linkWords_valid valid)
      (fatWord_fits valid) (vol₁.fatCovers x validX), ← foldl_linkWords]
    exact foldl_update_congr (fatWord_zeroClusters (agree.volume ground.vol) valid validX)
  · rw [Device.patch, (put _).2 x validX,
      bitAt_editPatches ground vol₁ (linkWords_valid valid) validX,
      bitAt_zeroClusters ground agree valid apart validX]
    exact if_congr (exists_mem_linkWords (p := fun y => SamePlace (place m d₀ x) (place m d₀ y))) rfl rfl

theorem extendedDevice_views (validLast : exfatClusterValid m last)
    (valid : ∀ b ∈ new, exfatClusterValid m b) (apartLast : ¬ Reserved m d₀ last)
    (apart : ∀ b ∈ new, ¬ Reserved m d₀ b) (present : new ≠ []) :
    SameReserved m d₀ (extendedDevice m d₀ last new d) ∧
    (∀ x, exfatClusterValid m x →
      fatWord m (extendedDevice m d₀ last new d) x =
        linkCells fatEnd new (Function.update (fatWord m d) last (new.headD fatEnd)) x) ∧
    (∀ x, exfatClusterValid m x →
      bitAt (extendedDevice m d₀ last new d) (place m d₀ x) =
        if ∃ b ∈ new, SamePlace (place m d₀ x) (place m d₀ b) then true
        else bitAt d (place m d₀ x)) := by
  have vol := agree.volume ground.vol
  have agree₁ := agree.zero ground valid
  obtain ⟨first, rest, rfl⟩ := List.exists_cons_of_ne_nil present
  have small : first < 2 ^ 32 := by
    obtain ⟨_, _, below⟩ := exfatClusterValid_iff.mp (valid first List.mem_cons_self)
    have : m.clusterEnd < 2 ^ 32 := Nat.mod_lt _ (by norm_num)
    omega
  -- The link from the old last cluster is written first, into the wiped device.
  have linkFat (x : Nat) (validX : exfatClusterValid m x) :
      fatWord m ((zeroClusters m (first :: rest) d).patch (fatPatch m last first).1
        (fatPatch m last first).2) x = Function.update (fatWord m d) last first x := by
    rw [fatWord_patch_fat, fatWord_zeroClusters vol valid validX, Nat.mod_eq_of_lt small,
      Function.update_apply]
  have agree₂ : SameReserved m d₀ ((zeroClusters m (first :: rest) d).patch
      (fatPatch m last first).1 (fatPatch m last first).2) := by
    refine agree₁.next (Device.sameShape_patch _ _ _) fun x reserved => ?_
    have validX := (ground.reserved_used reserved).1
    have other : x ≠ last := fun same => apartLast (same ▸ reserved)
    rw [linkFat x validX, Function.update_of_ne other, fatWord_zeroClusters vol valid validX]
  have vol₂ := agree₂.volume ground.vol
  have isDevice : extendedDevice m d₀ last (first :: rest) d =
      Device.patchAll (editPatches m d₀ true (linkWords (first :: rest)))
        ((zeroClusters m (first :: rest) d).patch (fatPatch m last first).1
          (fatPatch m last first).2) := by
    rw [extendedDevice, extendPatches, Device.patchAll_cons, List.headD_cons]
  rw [isDevice]
  refine ⟨?_, fun x validX => ?_, fun x validX => ?_⟩
  · exact edit_agree ground agree₂ true (linkWords_valid valid) (fatWord_fits valid)
      fun e member => apart e.1 (mem_of_mem_linkWords member)
  · rw [fatWord_editPatches ground vol₂ (linkWords_valid valid) (fatWord_fits valid)
      (vol₂.fatCovers x validX),
      ← foldl_linkWords]
    exact foldl_update_congr (linkFat x validX)
  · rw [bitAt_editPatches ground vol₂ (linkWords_valid valid) validX]
    refine if_congr (exists_mem_linkWords (p := fun y => SamePlace (place m d₀ x) (place m d₀ y)))
      rfl ?_
    rw [← bitAt_zeroClusters ground agree valid apart validX]
    refine bitAt_congr ground validX fun k b j chain within => ?_
    refine Device.patch_data_other _ fun same => ?_
    exact vol.fatSector_ne_heapSector validLast (exfatResolveCluster_valid chain) within same.symm

theorem unlinkedDevice_views (directory : ∃ i b j, rootChain m d₀ i = some b ∧ j < m.sectorsPerCluster ∧
      e.directoryLba = heapSector m b j)
    (valid : ∀ b ∈ cs, exfatClusterValid m b) (apart : ∀ b ∈ cs, ¬ Reserved m d₀ b) :
    SameReserved m d₀ (unlinkedDevice m d₀ e cs d) ∧
    (∀ x, exfatClusterValid m x →
      fatWord m (unlinkedDevice m d₀ e cs d) x = freeCells 0 cs (fatWord m d) x) ∧
    (∀ x, exfatClusterValid m x →
      bitAt (unlinkedDevice m d₀ e cs d) (place m d₀ x) =
        if ∃ b ∈ cs, SamePlace (place m d₀ x) (place m d₀ b) then false
        else bitAt d (place m d₀ x)) := by
  obtain ⟨i, b, j, chain, within, isLba⟩ := directory
  have put := root_put ground agree chain within
  have agree₁ : SameReserved m d₀
      (d.patch (heapSector m b j) (.deleteEntries e.directoryByteOffset 3)) :=
    agree.next (d.sameShape_patch _ _) fun x reserved =>
      (put _).1 x (ground.reserved_used reserved).1
  have vol₁ := agree₁.volume ground.vol
  have smallWords : ∀ w ∈ freeWords cs, w.2 < 2 ^ 32 := by
    intro w member
    obtain ⟨c, _, rfl⟩ := List.mem_map.mp member
    norm_num
  have agree₂ := edit_agree ground agree₁ false (freeWords_valid valid) smallWords
    fun w member => apart w.1 (mem_of_mem_freeWords member)
  have vol₂ := agree₂.volume ground.vol
  have isDevice : unlinkedDevice m d₀ e cs d = zeroClusters m cs
      (Device.patchAll (editPatches m d₀ false (freeWords cs))
        (d.patch (heapSector m b j) (.deleteEntries e.directoryByteOffset 3))) := by
    rw [unlinkedDevice, unlinkPatches, isLba, Device.patchAll_cons]
  rw [isDevice]
  refine ⟨agree₂.zero ground valid, fun x validX => ?_, fun x validX => ?_⟩
  · rw [fatWord_zeroClusters vol₂ valid validX,
      fatWord_editPatches ground vol₁ (freeWords_valid valid) smallWords
        (vol₁.fatCovers x validX), ← foldl_freeWords]
    exact foldl_update_congr ((put _).1 x validX)
  · rw [bitAt_zeroClusters ground agree₂ valid apart validX,
      bitAt_editPatches ground vol₁ (freeWords_valid valid) validX, Device.patch,
      (put _).2 x validX]
    exact if_congr (exists_mem_freeWords (p := fun y => SamePlace (place m d₀ x) (place m d₀ y))) rfl rfl

end Views

/-- A file system and the clusters its entries hold. -/
structure World where
  fs : Fs
  cells : Nat → List Nat

/-- What one stage of an operation can do. -/
inductive Step (m : Mount) (d₀ : Device) : World → World → Prop where
  /-- A file is created and entered in the table. -/
  | create {w : World} (c : Creation) (planned : Planned m d₀ w.fs c)
      (room : w.fs.rootEntries.length < maxRootEntries) :
      Step m d₀ w
        ⟨⟨w.fs.rootEntries ++ [c.entry m], c.device m d₀ w.fs.dev⟩,
          Function.update w.cells w.fs.rootEntries.length c.clusters⟩
  /-- A file is created on disk, but the table is full. -/
  | orphan {w : World} (c : Creation) (planned : Planned m d₀ w.fs c)
      (full : maxRootEntries ≤ w.fs.rootEntries.length) :
      Step m d₀ w ⟨⟨w.fs.rootEntries, c.device m d₀ w.fs.dev⟩, w.cells⟩
  /-- A chain is lengthened. -/
  | extend {w : World} {i required last : Nat} {e : RootEntry} {kept new : List Nat}
      (atIndex : w.fs.rootEntries[i]? = some e) (writable : e.writable)
      (begins : kept <+: w.cells i) (isLast : kept.getLast? = some last)
      (found : findExfatFreeClusterRun m w.fs.dev (required - kept.length) = some new)
      (few : required ≤ 3) (grows : e.capacity ≤ required * m.clusterSize) :
      Step m d₀ w
        ⟨⟨w.fs.rootEntries.set i { e with capacity := required * m.clusterSize },
            extendedDevice m d₀ last new w.fs.dev⟩,
          Function.update w.cells i (kept ++ new)⟩
  /-- A file is deleted. -/
  | unlink {w : World} {i : Nat} {e : RootEntry} {kept : List Nat}
      (atIndex : w.fs.rootEntries[i]? = some e) (writable : e.writable)
      (begins : kept <+: w.cells i)
      (inUse : ((Patch.deleteEntries e.directoryByteOffset 3).apply
        (w.fs.dev.data e.directoryLba)).isSome) :
      Step m d₀ w
        ⟨⟨w.fs.rootEntries.set i {}, unlinkedDevice m d₀ e kept w.fs.dev⟩,
          Function.update w.cells i []⟩
  /-- Data is written into the clusters of a file. -/
  | data {w : World} (i : Nat) {d' : Device} (only : DataOnly m (w.cells i) w.fs.dev d') :
      Step m d₀ w ⟨⟨w.fs.rootEntries, d'⟩, w.cells⟩
  /-- The size of a file is changed. -/
  | resize {w : World} {i size : Nat} {e : RootEntry} (atIndex : w.fs.rootEntries[i]? = some e)
      (writable : e.writable) (fits : size ≤ e.capacity) :
      Step m d₀ w
        ⟨⟨w.fs.rootEntries.set i { e with size := size }, w.fs.dev.put e.directoryLba
            (resizedEntrySet (w.fs.dev.data e.directoryLba) e.directoryByteOffset size)⟩,
          w.cells⟩
  /-- A file is given another name. -/
  | rename {w : World} {i : Nat} {e : RootEntry} {path name : Bytes}
      (renames : Renames m w.fs path i e name) :
      Step m d₀ w ⟨renamedFs w.fs i e name, w.cells⟩

theorem SamePlace.bitAt_eq {d p q} (same : SamePlace p q) : bitAt d p = bitAt d q := by
  obtain ⟨lba, offset, bit⟩ := same
  simp only [bitAt, lba, offset, bit]

/-- Replacing an entry by another writable one touches no other index. -/
theorem getElem?_set_cases (found : (entries.set i e)[j]? = some e') :
    (j = i ∧ e' = e) ∨ (j ≠ i ∧ entries[j]? = some e') := by
  by_cases here : j = i
  · subst here
    have inside : j < entries.length := by
      have bound := List.getElem?_eq_some_iff.mp found
      simpa using bound.1
    rw [List.getElem?_set_self inside, Option.some.injEq] at found
    exact .inl ⟨rfl, found.symm⟩
  · rw [List.getElem?_set_ne (Ne.symm here)] at found
    exact .inr ⟨here, found⟩

theorem getElem?_append_cases (found : (entries ++ [e])[j]? = some e') :
    (j = entries.length ∧ e' = e) ∨ (j < entries.length ∧ entries[j]? = some e') := by
  by_cases inside : j < entries.length
  · rw [List.getElem?_append_left inside] at found
    exact .inr ⟨inside, found⟩
  · rw [List.getElem?_append_right (Nat.not_lt.mp inside)] at found
    have zero : j - entries.length = 0 := by
      have bound := (List.getElem?_eq_some_iff.mp found).1
      simp only [List.length_singleton] at bound
      omega
    rw [zero] at found
    exact .inl ⟨by omega, by simpa using found.symm⟩

namespace Table

variable {m : Mount} {d₀ : Device} {fs : Fs} {cells : Nat → List Nat}

section

variable (table : Table m d₀ fs cells)

include table

/-- A change of the device that the FAT and the bits do not show keeps the invariant. -/
theorem sameViews (ground : Ground m d₀) (shape : fs.dev.SameShape d')
    (sameFat : ∀ c, exfatClusterValid m c → fatWord m d' c = fatWord m fs.dev c)
    (sameBits : ∀ c, exfatClusterValid m c →
      bitAt d' (place m d₀ c) = bitAt fs.dev (place m d₀ c)) :
    Table m d₀ { fs with dev := d' } cells where
  agree := table.agree.next shape fun c reserved => sameFat c (ground.reserved_used reserved).1
  used c valid before := (sameBits c valid).trans (table.used c valid before)
  owns := table.owns.congr fun _ _ member => sameFat _ (table.cell_valid member)
  entries := table.entries
  idle := table.idle

theorem replace (atIndex : fs.rootEntries[i]? = some e) (agree : SameReserved m d₀ d')
    (used : ∀ c, exfatClusterValid m c → bitAt d₀ (place m d₀ c) → bitAt d' (place m d₀ c))
    (owns : Owns (fatWord m d') fatEnd (Function.update cells i cs))
    (ok : e'.writable → EntryOk m d₀ e' cs) (none_ : e'.writable = false → cs = []) :
    Table m d₀ ⟨fs.rootEntries.set i e', d'⟩ (Function.update cells i cs) where
  agree := agree
  used := used
  owns := owns
  entries j x found isWritable := by
    rcases getElem?_set_cases found with ⟨rfl, rfl⟩ | ⟨other, old⟩
    · rw [Function.update_self]
      exact ok isWritable
    · rw [Function.update_of_ne other]
      exact table.entries j x old isWritable
  idle j none := by
    have inside := (List.getElem?_eq_some_iff.mp atIndex).1
    by_cases here : j = i
    · subst here
      rw [Function.update_self]
      exact none_ (none e' (List.getElem?_set_self inside))
    · rw [Function.update_of_ne here]
      exact table.idle j fun x old => none x (by rw [List.getElem?_set_ne (Ne.symm here)]; exact old)

/-- An entry may be replaced by one that says the same of its clusters. -/
theorem setEntry (atIndex : fs.rootEntries[i]? = some e) (writable : e'.writable) (ok : EntryOk m d₀ e' (cells i)) :
    Table m d₀ { fs with rootEntries := fs.rootEntries.set i e' } cells := by
  have same := Function.update_eq_self i cells
  have replaced := table.replace atIndex table.agree table.used (same.symm ▸ table.owns) (fun _ => ok)
    fun refused => by simp [writable] at refused
  rwa [same] at replaced

variable (ground : Ground m d₀)

include ground

theorem create {c} (planned : Planned m d₀ fs c) :
    Table m d₀ ⟨fs.rootEntries ++ [c.entry m], c.device m d₀ fs.dev⟩
      (Function.update cells fs.rootEntries.length c.clusters) := by
  obtain ⟨agree', fat, bits⟩ := Creation.views ground table.agree planned.valid
    (planned.apart table ground) (planned.lba ground table.agree)
  have distinct : c.clusters.Nodup := by
    obtain ⟨first, row⟩ := planned.run
    rw [row]
    exact List.nodup_range'
  refine ⟨agree', fun x validX before => ?_, ?_, fun j x found isWritable => ?_, fun j none => ?_⟩
  · rw [bits x validX]
    split
    · rfl
    · exact table.used x validX before
  · have linked := table.owns.link fs.rootEntries.length distinct fun j a member =>
      table.free_not_cell (planned.free a member) j
    refine linked.congr fun j a member => fat a ?_
    rcases mem_update_cases member with ⟨_, new⟩ | ⟨_, old⟩
    · exact planned.valid a new
    · exact table.cell_valid old
  · rcases getElem?_append_cases found with ⟨rfl, rfl⟩ | ⟨inside, old⟩
    · rw [Function.update_self]
      obtain ⟨r, _, _, isOffset⟩ := planned.slot
      exact
        { first := by
            obtain ⟨b, rest, split⟩ := List.exists_cons_of_ne_nil planned.some_
            simp [Creation.entry, split]
          few := planned.few
          capacity := rfl
          size := Nat.zero_le _
          valid := planned.valid
          unused := fun b member => table.free_unused (planned.free b member)
          flags := rfl
          parent := rfl
          file := rfl
          directory := planned.lba ground table.agree
          offset := planned.fits
          slot := by simp [Creation.entry, isOffset] }
    · rw [Function.update_of_ne (Nat.ne_of_lt inside)]
      exact table.entries j x old isWritable
  · by_cases here : j = fs.rootEntries.length
    · subst here
      have refused := none (c.entry m) (by simp)
      cases refused
    · rw [Function.update_of_ne here]
      refine table.idle j fun x old => none x ?_
      have inside := (List.getElem?_eq_some_iff.mp old).1
      rw [List.getElem?_append_left inside]
      exact old

theorem orphan {c} (planned : Planned m d₀ fs c) : Table m d₀ ⟨fs.rootEntries, c.device m d₀ fs.dev⟩ cells := by
  obtain ⟨agree', fat, bits⟩ := Creation.views ground table.agree planned.valid
    (planned.apart table ground) (planned.lba ground table.agree)
  refine ⟨agree', fun x validX before => ?_, ?_, table.entries, table.idle⟩
  · rw [bits x validX]
    split
    · rfl
    · exact table.used x validX before
  · refine table.owns.congr fun j a member => ?_
    rw [fat a (table.cell_valid member)]
    exact linkCells_outside fun new => table.free_not_cell (planned.free a new) j member

theorem extend (atIndex : fs.rootEntries[i]? = some e)
    (writable : e.writable) (begins : kept <+: cells i) (isLast : kept.getLast? = some last)
    (found : findExfatFreeClusterRun m fs.dev (required - kept.length) = some new) (few : required ≤ 3)
    (grows : e.capacity ≤ required * m.clusterSize) :
    Table m d₀
      ⟨fs.rootEntries.set i { e with capacity := required * m.clusterSize },
        extendedDevice m d₀ last new fs.dev⟩
      (Function.update cells i (kept ++ new)) := by
  have ok := table.entries i e atIndex writable
  obtain ⟨len, pos, _, ⟨first, row⟩, free⟩ := findExfatFreeClusterRun_spec ground table.agree found
  have valid : ∀ b ∈ new, exfatClusterValid m b := fun b member => (free b member).valid
  have lastMember : last ∈ cells i := begins.subset (List.mem_of_getLast? isLast)
  have present : new ≠ [] := by
    intro empty
    rw [empty, List.length_nil] at len
    omega
  obtain ⟨agree', fat, bits⟩ := extendedDevice_views ground table.agree (table.cell_valid lastMember)
    valid (table.cell_not_reserved ground lastMember)
    (fun b member => table.free_not_reserved ground (free b member)) present
  have distinct : new.Nodup := by
    rw [row]
    exact List.nodup_range'
  have total : (kept ++ new).length = required := by
    rw [List.length_append]
    omega
  have newCells : EntryOk m d₀ { e with capacity := required * m.clusterSize } (kept ++ new) :=
    { first := by
        obtain ⟨b, rest, split⟩ := List.exists_cons_of_ne_nil (List.ne_nil_of_mem (List.mem_of_getLast? isLast))
        obtain ⟨tail, whole⟩ := begins
        have first := ok.first
        rw [← whole] at first
        simpa [split] using first
      few := by rw [total]; exact few
      capacity := by rw [total]
      size := ok.size.trans grows
      valid := fun b member => (List.mem_append.mp member).elim
        (fun old => ok.valid b (begins.subset old)) (valid b)
      unused := fun b member => (List.mem_append.mp member).elim
        (fun old => ok.unused b (begins.subset old)) fun added => table.free_unused (free b added)
      flags := ok.flags
      parent := ok.parent
      file := ok.file
      directory := ok.directory
      offset := ok.offset
      slot := ok.slot }
  refine table.replace atIndex agree' (fun x validX before => ?_) ?_ (fun _ => newCells) fun refused => ?_
  · rw [bits x validX]
    split
    · rfl
    · exact table.used x validX before
  · have linked := table.owns.extend begins isLast distinct fun j a member =>
      table.free_not_cell (free a member) j
    refine linked.congr fun j a member => fat a ?_
    rcases mem_update_cases member with ⟨_, mine⟩ | ⟨_, old⟩
    · exact newCells.valid a mine
    · exact table.cell_valid old
  · simp [writable] at refused

theorem unlink (atIndex : fs.rootEntries[i]? = some e) (writable : e.writable) (begins : kept <+: cells i) :
    Table m d₀ ⟨fs.rootEntries.set i {}, unlinkedDevice m d₀ e kept fs.dev⟩
      (Function.update cells i []) := by
  have ok := table.entries i e atIndex writable
  have held : ∀ b ∈ kept, b ∈ cells i := fun b member => begins.subset member
  obtain ⟨agree', fat, bits⟩ := unlinkedDevice_views ground table.agree ok.directory
    (fun b member => ok.valid b (held b member))
    fun b member => table.cell_not_reserved ground (held b member)
  refine table.replace atIndex agree' (fun x validX before => ?_) ?_ nofun fun _ => rfl
  · rw [bits x validX, if_neg]
    · exact table.used x validX before
    · rintro ⟨b, member, same⟩
      rw [same.bitAt_eq, ok.unused b (held b member)] at before
      cases before
  · refine (table.owns.release held).congr fun j a member => fat a ?_
    rcases mem_update_cases member with ⟨_, none⟩ | ⟨_, old⟩
    · cases none
    · exact table.cell_valid old

theorem bitAt_data (only : DataOnly m (cells i) fs.dev d') (valid : exfatClusterValid m c) :
    bitAt d' (place m d₀ c) = bitAt fs.dev (place m d₀ c) := by
  have vol := table.volume ground
  refine bitAt_congr ground valid fun k b j chain within => only.outside _ ?_
  rintro ⟨x, member, j', inside', same⟩
  obtain ⟨rfl, _⟩ := vol.heapSector_inj (exfatResolveCluster_valid chain) (table.cell_valid member)
    within inside' same
  exact table.cell_not_reserved ground member (.inr ⟨k, chain⟩)

theorem data (only : DataOnly m (cells i) fs.dev d') : Table m d₀ ⟨fs.rootEntries, d'⟩ cells :=
  table.sameViews ground only.shape
    (fun _ valid => only.fatWord (table.volume ground) (fun _ member => table.cell_valid member) valid)
    fun _ valid => table.bitAt_data ground only valid

theorem bitAt_putEntry (atIndex : fs.rootEntries[i]? = some e)
    (writable : e.writable) (s : Sector) (valid : exfatClusterValid m c) :
    bitAt (fs.dev.put e.directoryLba s) (place m d₀ c) = bitAt fs.dev (place m d₀ c) := by
  obtain ⟨k, b, j, chain, within, lba⟩ := (table.entries i e atIndex writable).directory
  rw [lba]
  exact (root_put ground table.agree chain within s).2 c valid

/-- Rewriting the directory set of an entry keeps the invariant. -/
theorem putEntry (atIndex : fs.rootEntries[i]? = some e) (writable : e.writable)
    (s : Sector) (writable' : e'.writable) (ok' : EntryOk m d₀ e' (cells i)) :
    Table m d₀ ⟨fs.rootEntries.set i e', fs.dev.put e.directoryLba s⟩ cells := by
  obtain ⟨k, b, j, chain, within, lba⟩ := (table.entries i e atIndex writable).directory
  obtain ⟨sameFat, sameBits⟩ := root_put ground table.agree chain within s
  rw [lba]
  exact (table.sameViews ground (fs.dev.sameShape_put _ s) sameFat sameBits).setEntry atIndex
    writable' ok'

end

theorem step (ground : Ground m d₀) (step : Step m d₀ w w')
    (table : Table m d₀ w.fs w.cells) : Table m d₀ w'.fs w'.cells := by
  cases step with
  | create c planned _ => exact table.create ground planned
  | orphan c planned _ => exact table.orphan ground planned
  | extend atIndex writable begins isLast found few grows =>
    exact table.extend ground atIndex writable begins isLast found few grows
  | unlink atIndex writable begins _ => exact table.unlink ground atIndex writable begins
  | data i only => exact table.data ground only
  | resize atIndex writable fits =>
    have ok := table.entries _ _ atIndex writable
    exact table.putEntry ground atIndex writable _ writable { ok with size := fits }
  | rename renames =>
    have ok := table.entries _ _ renames.atIndex renames.writable
    exact table.putEntry ground renames.atIndex renames.writable _ renames.writable { ok with }

end Table

end TangPingOS
