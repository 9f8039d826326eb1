import TangPingOS.Exfat.Ownership
import TangPingOS.Exfat.Reading

/-! # What file operations leave alone

Every step touches the clusters of one file and clusters that are free. The link and the sectors
of every other cluster outside the directory and the bitmap stay as they are, and with them what
is read of the files that were on the volume before the mount.
-/

namespace TangPingOS

open Lib

variable {c : Creation} {d d' d₀ : Device} {fs : Fs} {cs kept new : List Nat} {parsed : List RootEntry}
  {m : Mount} {i index j k last x : Nat} {cells : Nat → List Nat} {e : RootEntry} {w w' : World}

/-- The link and the sectors of a cluster are the same on both devices. -/
structure SameCluster (m : Mount) (d d' : Device) (c : Nat) : Prop where
  link : fatWord m d' c = fatWord m d c
  data : ∀ j < m.sectorsPerCluster, d'.data (heapSector m c j) = d.data (heapSector m c j)

namespace SameCluster

theorem refl (m : Mount) (d : Device) (c : Nat) : SameCluster m d d c := ⟨rfl, fun _ _ => rfl⟩

theorem trans {d'' c} (first : SameCluster m d d' c) (second : SameCluster m d' d'' c) : SameCluster m d d'' c :=
  ⟨second.link.trans first.link, fun j inside => (second.data j inside).trans (first.data j inside)⟩

theorem of_dataOnly (vol : Volume m d) (only : DataOnly m cs d d') (valids : ∀ c ∈ cs, exfatClusterValid m c)
    (valid : exfatClusterValid m x) (other : x ∉ cs) : SameCluster m d d' x := by
  refine ⟨only.fatWord vol valids valid, fun j inside => only.outside _ ?_⟩
  rintro ⟨c, member, i, within, same⟩
  obtain ⟨rfl, -⟩ := vol.heapSector_inj valid (valids c member) inside within same
  exact other member

section Changes

variable (ground : Ground m d₀) (agree : SameReserved m d₀ d) (valid : exfatClusterValid m x)
  (apart : ¬Reserved m d₀ x)

include ground agree valid apart

theorem ne_root (inside : k < m.sectorsPerCluster)
    (root : ∃ i b j, rootChain m d₀ i = some b ∧ j < m.sectorsPerCluster ∧ lba = heapSector m b j) :
    heapSector m x k ≠ lba := by
  obtain ⟨i, b, j, chain, within, rfl⟩ := root
  intro same
  obtain ⟨rfl, -⟩ := (agree.volume ground.vol).heapSector_inj valid (exfatResolveCluster_valid chain) inside
    within same
  exact apart (.inl ⟨i, chain⟩)

theorem put_root (chain : rootChain m d₀ i = some b) (within : j < m.sectorsPerCluster) : SameCluster m d (d.put (heapSector m b j) s) x := by
  refine ⟨(root_put ground agree chain within s).1 x valid, fun k inside => Device.put_data_other ?_⟩
  exact ne_root ground agree valid apart inside ⟨i, b, j, chain, within, rfl⟩

/-- A create writes into the sectors of a cluster only to wipe them. -/
theorem create_data (valids : ∀ b ∈ c.clusters, exfatClusterValid m b)
    (lba : ∃ i b j, rootChain m d₀ i = some b ∧ j < m.sectorsPerCluster ∧ c.lba = heapSector m b j)
    (inside : k < m.sectorsPerCluster) :
    (c.device m d₀ d).data (heapSector m x k) = (zeroClusters m c.clusters d).data (heapSector m x k) := by
  have vol := agree.volume ground.vol
  rw [Creation.device, Creation.patches, Device.patchAll_append, Device.patchAll_cons, Device.patchAll,
    Device.patch_data_other _ (ne_root ground agree valid apart inside lba)]
  exact editPatches_data_other ground (vol.ofShape (sameShape_zeroClusters m c.clusters d))
    (linkWords_valid valids) valid inside fun j chain => apart (.inr ⟨j, chain⟩)

theorem create (valids : ∀ b ∈ c.clusters, exfatClusterValid m b) (aparts : ∀ b ∈ c.clusters, ¬Reserved m d₀ b)
    (lba : ∃ i b j, rootChain m d₀ i = some b ∧ j < m.sectorsPerCluster ∧ c.lba = heapSector m b j)
    (other : x ∉ c.clusters) : SameCluster m d (c.device m d₀ d) x := by
  have vol := agree.volume ground.vol
  obtain ⟨-, fat, -⟩ := Creation.views ground agree valids aparts lba
  refine ⟨?_, fun k inside => ?_⟩
  · rw [fat x valid]
    exact linkCells_outside other
  · rw [create_data ground agree valid apart valids lba inside]
    exact zeroClusters_data_other vol valids valid inside other

section

variable (validLast : exfatClusterValid m last) (valids : ∀ b ∈ new, exfatClusterValid m b)

include validLast valids

theorem extend_data (inside : j < m.sectorsPerCluster) :
    (extendedDevice m d₀ last new d).data (heapSector m x j) =
      (zeroClusters m new d).data (heapSector m x j) := by
  have vol := agree.volume ground.vol
  have vol₁ := vol.ofShape (sameShape_zeroClusters m new d)
  have notFat := (vol.fatSector_ne_heapSector validLast valid inside).symm
  rw [extendedDevice, extendPatches, Device.patchAll_cons,
    editPatches_data_other ground (vol₁.ofShape (Device.sameShape_patch _ _ _)) (linkWords_valid valids)
      valid inside fun j chain => apart (.inr ⟨j, chain⟩)]
  exact Device.patch_data_other _ notFat

/-- Lengthening a chain changes the link of its last cluster. -/
theorem extend (apartLast : ¬Reserved m d₀ last)
    (aparts : ∀ b ∈ new, ¬Reserved m d₀ b) (present : new ≠ []) (other : x ∉ new) :
    (x ≠ last → fatWord m (extendedDevice m d₀ last new d) x = fatWord m d x) ∧
      ∀ j < m.sectorsPerCluster,
        (extendedDevice m d₀ last new d).data (heapSector m x j) = d.data (heapSector m x j) := by
  have vol := agree.volume ground.vol
  obtain ⟨-, fat, -⟩ := extendedDevice_views ground agree validLast valids apartLast aparts present
  refine ⟨fun notLast => ?_, fun j inside => ?_⟩
  · rw [fat x valid, linkCells_outside other, Function.update_of_ne notLast]
  · rw [extend_data ground agree valid apart validLast valids inside]
    exact zeroClusters_data_other vol valids valid inside other

end

theorem unlink (directory : ∃ i b j, rootChain m d₀ i = some b ∧ j < m.sectorsPerCluster ∧
      e.directoryLba = heapSector m b j)
    (valids : ∀ b ∈ cs, exfatClusterValid m b) (aparts : ∀ b ∈ cs, ¬Reserved m d₀ b)
    (other : x ∉ cs) : SameCluster m d (unlinkedDevice m d₀ e cs d) x := by
  have vol := agree.volume ground.vol
  obtain ⟨-, fat, -⟩ := unlinkedDevice_views ground agree directory valids aparts
  refine ⟨?_, fun j inside => ?_⟩
  · rw [fat x valid, freeCells, if_neg other]
  · rw [unlinkedDevice, zeroClusters_data_other
      (vol.ofShape (Device.sameShape_patchAll (unlinkPatches m d₀ e cs) d)) valids valid inside other,
      unlinkPatches, Device.patchAll_cons,
      editPatches_data_other ground (vol.ofShape (Device.sameShape_patch _ _ _)) (freeWords_valid valids)
        valid inside fun j chain => apart (.inr ⟨j, chain⟩)]
    exact Device.patch_data_other _ (ne_root ground agree valid apart inside directory)

end Changes

end SameCluster

/-- A cluster that a step on file `i` has no business with. -/
structure ForeignCluster (m : Mount) (d₀ : Device) (fs : Fs) (cells : Nat → List Nat) (i x : Nat) : Prop where
  valid : exfatClusterValid m x
  apart : ¬Reserved m d₀ x
  notFree : ¬Free m d₀ fs.dev x
  other : x ∉ cells i

theorem Table.foreign (table : Table m d₀ fs cells)
    (ground : Ground m d₀) (other : j ≠ i) (member : x ∈ cells j) : ForeignCluster m d₀ fs cells i x :=
  ⟨table.cell_valid member, table.cell_not_reserved ground member, fun free => table.free_not_cell free j member,
    table.owns.apart j i other x member⟩

namespace ForeignCluster

variable (foreign : ForeignCluster m d₀ fs cells i x) (ground : Ground m d₀) (table : Table m d₀ fs cells)

include foreign ground table

theorem created (planned : Planned m d₀ fs c) : SameCluster m fs.dev (c.device m d₀ fs.dev) x :=
  .create ground table.agree foreign.valid foreign.apart planned.valid (planned.apart table ground)
    (planned.lba ground table.agree) fun member => foreign.notFree (planned.free x member)

theorem extended (begins : kept <+: cells i) (isLast : kept.getLast? = some last)
    (found : findExfatFreeClusterRun m fs.dev (required - kept.length) = some new) :
    SameCluster m fs.dev (extendedDevice m d₀ last new fs.dev) x := by
  obtain ⟨len, pos, -, -, free⟩ := findExfatFreeClusterRun_spec ground table.agree found
  have lastMember : last ∈ cells i := begins.subset (List.mem_of_getLast? isLast)
  obtain ⟨link, data⟩ := SameCluster.extend ground table.agree foreign.valid foreign.apart
    (table.cell_valid lastMember) (fun b member => (free b member).valid)
    (table.cell_not_reserved ground lastMember)
    (fun b member => table.free_not_reserved ground (free b member))
    (List.ne_nil_of_length_pos (by omega)) fun member => foreign.notFree (free x member)
  refine ⟨link ?_, data⟩
  rintro rfl
  exact foreign.other lastMember

theorem unlinked (atIndex : fs.rootEntries[i]? = some e) (writable : e.writable) (begins : kept <+: cells i) :
    SameCluster m fs.dev (unlinkedDevice m d₀ e kept fs.dev) x :=
  .unlink ground table.agree foreign.valid foreign.apart (table.entries i e atIndex writable).directory
    (fun _ member => table.cell_valid (begins.subset member))
    (fun _ member => table.cell_not_reserved ground (begins.subset member))
    fun member => foreign.other (begins.subset member)

theorem wrote (only : DataOnly m (cells i) fs.dev d') : SameCluster m fs.dev d' x :=
  .of_dataOnly (table.volume ground) only (fun _ member => table.cell_valid member) foreign.valid foreign.other

theorem entered (atIndex : fs.rootEntries[i]? = some e) (writable : e.writable)
    (s : Sector) : SameCluster m fs.dev (fs.dev.put e.directoryLba s) x := by
  obtain ⟨k, b, j, chain, within, isLba⟩ := (table.entries i e atIndex writable).directory
  rw [isLba]
  exact .put_root ground table.agree foreign.valid foreign.apart chain within

end ForeignCluster

/-! ## The volume before the mount -/

/-- A cluster that was allocated before the mount, outside the directory and the bitmap. -/
structure Used (m : Mount) (d₀ : Device) (c : Nat) : Prop where
  valid : exfatClusterValid m c
  allocated : bitAt d₀ (place m d₀ c)
  apart : ¬Reserved m d₀ c

section Kept

variable (ground : Ground m d₀) (used : Used m d₀ x)

include used

theorem Used.foreign (table : Table m d₀ fs cells) : ForeignCluster m d₀ fs cells i x := by
  refine ⟨used.valid, used.apart, fun free => ?_, fun member => ?_⟩
  · have clear := table.free_unused free
    rw [used.allocated] at clear
    cases clear
  · have clear := table.cell_unused member
    rw [used.allocated] at clear
    cases clear

include ground

theorem Used.step (step : Step m d₀ w w') (table : Table m d₀ w.fs w.cells) :
    SameCluster m w.fs.dev w'.fs.dev x := by
  have foreign (i : Nat) : ForeignCluster m d₀ w.fs w.cells i x := used.foreign table
  cases step with
  | create c planned room => exact (foreign 0).created ground table planned
  | orphan c planned full => exact (foreign 0).created ground table planned
  | extend atIndex writable begins isLast found few grows =>
    exact (foreign _).extended ground table begins isLast found
  | unlink atIndex writable begins inUse => exact (foreign _).unlinked ground table atIndex writable begins
  | data i only => exact (foreign i).wrote ground table only
  | resize atIndex writable fits => exact (foreign _).entered ground table atIndex writable _
  | rename renames =>
    exact (foreign _).entered ground table renames.atIndex renames.writable _

theorem Used.mounted (done : MountDone m d₀ entries fs)
    (ready : m.exfat.commit.ready) : SameCluster m d₀ fs.dev x := by
  obtain ⟨d', views, isFs⟩ := done.start ground ready
  have ok := done.entryOk ground
  have committed : SameCluster m d₀ d' x := by
    refine ⟨?_, fun j inside => views.other x j used.valid inside ?_ fun k chain =>
      used.apart (.inr ⟨k, chain⟩)⟩
    · rw [views.fat x used.valid]
      refine linkCells_outside fun member => ?_
      have clear := (done.planned.threeFree ground).clear x member
      rw [used.allocated] at clear
      cases clear
    · exact SameCluster.ne_root ground ⟨.refl d₀, fun _ _ => rfl⟩ used.valid used.apart inside ok.directory
  rw [isFs, mountedFs]
  split
  · exact committed
  · obtain ⟨k, b, j, chain, within, isLba⟩ := ok.directory
    refine committed.trans ?_
    rw [show m.exfat.transaction.directoryLba = heapSector m b j from isLba]
    exact .put_root ground (done.agree ground views) used.valid used.apart chain within

end Kept

def ShortName (name : Bytes) : Prop := ∃ path, parseExfatTestShortName path = some name

/-- Where an entry of the table comes from: a file operation made it, or the mount found it, or it is
    what unlink leaves. -/
inductive EntryFrom (parsed : List RootEntry) (e : RootEntry) : Prop where
  | made (writable : e.writable) (named : ShortName e.name)
  | found (readOnly : e.writable = false) (member : e ∈ parsed)
  | unlinked (empty : e = {})

theorem EntryFrom.shortName (origin : EntryFrom parsed e) (writable : e.writable) : ShortName e.name := by
  cases origin with
  | made _ named => exact named
  | found readOnly _ =>
    rw [writable] at readOnly
    cases readOnly
  | unlinked empty =>
    rw [empty] at writable
    cases writable

theorem EntryFrom.step (step : Step m d₀ w w') (origins : ∀ e ∈ w.fs.rootEntries, EntryFrom parsed e) :
    ∀ e ∈ w'.fs.rootEntries, EntryFrom parsed e := by
  have named {i : Nat} {e : RootEntry} (atIndex : w.fs.rootEntries[i]? = some e) (writable : e.writable) :
      ShortName e.name := (origins e (List.mem_of_getElem? atIndex)).shortName writable
  have replaced {i : Nat} {new : RootEntry} (isNew : EntryFrom parsed new) :
      ∀ e ∈ w.fs.rootEntries.set i new, EntryFrom parsed e := by
    intro e member
    rcases List.mem_or_eq_of_mem_set member with old | rfl
    · exact origins e old
    · exact isNew
  cases step with
  | create c planned room =>
    intro e member
    rcases List.mem_append.mp member with old | new
    · exact origins e old
    · rw [List.mem_singleton.mp new]
      exact .made rfl ⟨_, planned.name⟩
  | orphan c planned full => exact origins
  | extend atIndex writable _ _ _ _ _ =>
    have shortName := named atIndex writable
    exact replaced (.made writable shortName)
  | unlink _ _ _ _ => exact replaced (.unlinked rfl)
  | data _ _ => exact origins
  | resize atIndex writable _ =>
    have shortName := named atIndex writable
    exact replaced (.made writable shortName)
  | rename renames =>
    exact replaced (.made renames.writable ⟨_, renames.parsed⟩)

/-- What every reached state has kept of the volume before the mount. -/
structure Inherits (m : Mount) (d₀ : Device) (parsed : List RootEntry) (fs : Fs) : Prop where
  used : ∀ x, Used m d₀ x → SameCluster m d₀ fs.dev x
  entries : ∀ e ∈ fs.rootEntries, EntryFrom parsed e

theorem Inherits.steps (ground : Ground m d₀) (steps : Steps m d₀ w w') (table : Table m d₀ w.fs w.cells)
    (inherits : Inherits m d₀ parsed w.fs) : Inherits m d₀ parsed w'.fs := by
  induction steps with
  | refl => exact inherits
  | tail before step ih =>
    refine ⟨fun x used => (ih.used x used).trans ?_, EntryFrom.step step ih.entries⟩
    exact used.step ground step (table.steps ground before)

theorem Mounted.inherits (start : Mounted d m fs) (ops : List FileOp) :
    Inherits m d (parsedEntries d) (runOps m fs ops) := by
  have ground := start.ground
  have done := start.done
  obtain ⟨d', views, isFs⟩ := done.start ground start.ready
  have table := done.table ground views
  rw [← isFs] at table
  have first : Inherits m d (parsedEntries d) fs := by
    refine ⟨fun x used => used.mounted ground done start.ready, ?_⟩
    have parsed : ∀ e ∈ parsedEntries d, EntryFrom (parsedEntries d) e := fun e member =>
      .found (done.readOnly e member) member
    rw [isFs, mountedFs]
    split
    · exact parsed
    · intro e member
      rcases List.mem_append.mp member with old | new
      · exact parsed e old
      · rw [List.mem_singleton.mp new]
        have shortName : ShortName newTxt := ⟨0x2f :: newTxt, by decide +kernel⟩
        exact .made rfl shortName
  obtain ⟨cells, steps⟩ := runOps_reaches ground start.ready ops table
  exact first.steps ground steps table

/-- What the mount establishes and every stage of an operation keeps holds after every run. -/
theorem Mounted.keeps {P : Fs → Prop} (start : Mounted d m fs)
    (first : ∀ d', planDevice m.exfat.transaction m.exfat.createPlan.entries d = some d' →
      P (mountedFs m (parsedEntries d) d'))
    (step : ∀ {w w'}, Step m d w w' → Table m d w.fs w.cells → P w.fs → P w'.fs) :
    P (runOps m fs ops) := by
  have ground := start.ground
  obtain ⟨d', planned, isFs⟩ := start.done.entered
  have views := start.done.views ground planned
  rw [start.done.enterNewFile_eq ground views start.ready] at isFs
  have table := start.done.table ground views
  have held := first d' planned
  rw [← isFs] at held table
  obtain ⟨cells, steps⟩ := runOps_reaches ground start.ready ops table
  suffices run : ∀ {w}, Steps m d _ w → P w.fs from run steps
  intro w steps
  induction steps with
  | refl => exact held
  | tail before last ih => exact step last (table.steps ground before) ih

/-- No stage changes a read-only entry. -/
theorem Step.keeps_readOnly {i : Nat} {e : RootEntry} (step : Step m d₀ w w')
    (atIndex : w.fs.rootEntries[i]? = some e) (readOnly : e.writable = false) : w'.fs.rootEntries[i]? = some e := by
  have replaced {j : Nat} {old new : RootEntry} (atJ : w.fs.rootEntries[j]? = some old)
      (writable : old.writable) : (w.fs.rootEntries.set j new)[i]? = some e := by
    refine (List.getElem?_set_ne ?_).trans atIndex
    rintro rfl
    rw [Option.some.inj (atJ.symm.trans atIndex), readOnly] at writable
    cases writable
  cases step with
  | create => exact (List.getElem?_append_left (List.getElem?_eq_some_iff.mp atIndex).1).trans atIndex
  | orphan | data => exact atIndex
  | extend atJ writable | unlink atJ writable | resize atJ writable => exact replaced atJ writable
  | rename renames => exact replaced renames.atIndex renames.writable

/-- Whatever the flags of a file, its clusters are clusters of the volume. -/
theorem exfatResolveCluster_inside {first flags c}
    (found : exfatResolveCluster m d first flags index = some c) : exfatClusterValid m c := by
  by_cases contiguous : flags &&& 0x02 = 0
  · simp only [exfatResolveCluster, contiguous] at found
    split at found
    · cases found
    · rename_i valid
      simp only [Bool.not_eq_true, Bool.not_eq_false'] at valid
      exact followFatChain_valid valid found
  · exact ((exfatResolveCluster_contiguous contiguous).mp found).2.2

/-- The clusters that hold a file, up to its size, are the same on both devices. -/
def SameFile (m : Mount) (d d' : Device) (e : RootEntry) : Prop :=
  ∀ k c, k * m.clusterSize < e.size → exfatResolveCluster m d e.firstCluster e.streamFlags k = some c →
    SameCluster m d d' c

namespace SameFile

variable (vol : Volume m d) (shape : d.SameShape d') (same : SameFile m d d' e)

include vol shape same

theorem resolve_eq (inside : index * m.clusterSize < e.size) :
    exfatResolveCluster m d' e.firstCluster e.streamFlags index =
      exfatResolveCluster m d e.firstCluster e.streamFlags index := by
  cases valid : exfatClusterValid m e.firstCluster with
  | false => simp [exfatResolveCluster, valid]
  | true =>
    by_cases contiguous : e.streamFlags &&& 0x02 = 0
    · have follow (d : Device) (k : Nat) : exfatResolveCluster m d e.firstCluster e.streamFlags k =
          followFatChain m d e.firstCluster k := by
        simp [exfatResolveCluster, valid, contiguous]
      rw [follow, follow]
      refine followFatChain_congr vol (vol.ofShape shape) valid fun k c before found => (same k c ?_ ?_).link
      · exact Nat.lt_of_le_of_lt (Nat.mul_le_mul_right _ (Nat.le_of_lt before)) inside
      · rw [follow]
        exact found
    · -- a file without a FAT chain is found without the device
      have flag := bne_iff_ne.mpr contiguous
      simp [exfatResolveCluster, flag]

/-- A position of the file has the same sector on both, with the same bytes. -/
theorem sector_eq (inside : pos < e.size) :
    exfatFileSector m d' e pos = exfatFileSector m d e pos ∧
      ∀ lba, exfatFileSector m d e pos = some lba → blockRead d' lba = blockRead d lba := by
  have low : pos / m.clusterSize * m.clusterSize < e.size :=
    Nat.lt_of_le_of_lt (Nat.div_mul_le_self _ _) inside
  refine ⟨?_, fun lba found => ?_⟩
  · rw [exfatFileSector, exfatFileSector, same.resolve_eq vol shape low]
  · obtain ⟨c, resolved, reached⟩ := Option.bind_eq_some_iff.mp found
    simp only at reached
    split at reached
    · cases reached
    rename_i column
    obtain ⟨-, column⟩ := not_or.mp column
    rw [Option.some.injEq, vol.wrap64_lba (exfatResolveCluster_inside resolved) (Nat.not_le.mp column)]
      at reached
    rw [blockRead, blockRead, shape.accepts, ← reached,
      (same _ c low resolved).data _ (Nat.not_le.mp column)]

theorem readFrom_eq : readFrom m d' e offset bufferLen fuel out = readFrom m d e offset bufferLen fuel out := by
  induction fuel generalizing out with
  | zero => rfl
  | succ fuel ih =>
    rw [readFrom, readFrom]
    split
    · rename_i more
      obtain ⟨sectors, reads⟩ := same.sector_eq vol shape more.2
      simp only [sectors]
      cases found : exfatFileSector m d e (offset + out.length) with
      | none => rfl
      | some lba => simp only [Option.bind_some, reads lba found, ih]
    · rfl

theorem readExfatRootFile_eq :
    readExfatRootFile m d' e offset bufferLen = readExfatRootFile m d e offset bufferLen := by
  simp only [readExfatRootFile, same.readFrom_eq vol shape]

end SameFile

end TangPingOS
