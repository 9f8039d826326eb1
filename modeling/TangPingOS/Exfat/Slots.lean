import TangPingOS.Exfat.Reading
import TangPingOS.Exfat.Searches
import TangPingOS.Exfat.SmallVolume
import TangPingOS.Lib.Rows

/-! # The search for directory slots

The search counts free slots across the ends of sectors and clusters, as if the directory were
one row of slots, and stops at the first three in a row. A new entry set, however, has to lie
in one sector.
-/

namespace TangPingOS

open Lib

/-! ## The directory as a row of slots -/

section

variable (m : Mount) (d : Device)

/-- Sector `n` of the root directory. -/
def rootSector (n : Nat) : Option Nat :=
  (rootChain m d (n / m.sectorsPerCluster)).map fun c =>
    wrap64 (exfatClusterLba m c + n % m.sectorsPerCluster)

/-- Slot `g` of the root directory is there and free. -/
def rootSlotFree (g : Nat) : Bool :=
  match rootSector m d (g / 16) with
  | none => false
  | some lba => exfatDirectorySlotFree (d.data lba) (g % 16)

/-- A finite chain of readable clusters. -/
structure RootReadable : Prop where
  valid : exfatClusterValid m m.exfat.rootDirCluster
  counted : m.exfat.clusterCount < 2 ^ 32
  blockSize : m.blockSize = 512
  ends : ∃ stop, rootChain m d stop = none
  reads : ∀ i c, rootChain m d i = some c → ∀ j < m.sectorsPerCluster,
    d.accepts (wrap64 (exfatClusterLba m c + j))

/-- The scan after `n` slots: how many free ones end there, and where they begin. -/
structure SlotCount (n : Nat) (r : SlotRun) : Prop where
  counting : Counting (rootSlotFree m d) 3 n r.run
  began : 0 < r.run → rootSector m d ((n - r.run) / 16) = some r.lba ∧ r.slot = (n - r.run) % 16

/-- What the scan comes to, the slots from `n` on being left. -/
def SlotOutcome (n : Nat) : SlotSearch → Prop
  | .found r => ∃ g, FirstRow (rootSlotFree m d) 3 g ∧ rootSector m d (g / 16) = some r.lba ∧
      r.slot = g % 16
  | .exhausted r => SlotCount m d n r
  | .failed _ => False

end

theorem SlotRun.grow_run (r here : SlotRun) : (r.grow here).run = r.run + 1 := by
  simp only [SlotRun.grow]
  split
  · rename_i none
    rw [none]
  · rfl

section Scan

variable {m : Mount} {d : Device}

/-- The run that a free slot lengthens begins where the run before did, or at the slot. -/
theorem SlotCount.began_grow {n r here} (count : SlotCount m d n r)
    (sector : rootSector m d (n / 16) = some here.lba) (slot : here.slot = n % 16) :
    rootSector m d ((n - r.run) / 16) = some (r.grow here).lba ∧ (r.grow here).slot = (n - r.run) % 16 := by
  simp only [SlotRun.grow]
  split
  · rename_i none
    rw [none]
    exact ⟨sector, slot⟩
  · exact count.began (by omega)

theorem scanSlots_outcome {k slot left here r} (sector : rootSector m d k = some here.lba)
    (inside : slot + left = 16) (count : SlotCount m d (k * 16 + slot) r) :
    SlotOutcome m d ((k + 1) * 16) (scanSlots (d.data here.lba) here slot left r) := by
  induction left generalizing slot r with
  | zero =>
    have whole : k * 16 + slot = (k + 1) * 16 := by omega
    exact whole ▸ count
  | succ left ih =>
    have row : (k * 16 + slot) / 16 = k := by omega
    have column : (k * 16 + slot) % 16 = slot := by omega
    have isFree : rootSlotFree m d (k * 16 + slot) = exfatDirectorySlotFree (d.data here.lba) slot := by
      simp only [rootSlotFree, row, column, sector]
    simp only [scanSlots]
    cases free : exfatDirectorySlotFree (d.data here.lba) slot with
    | true =>
      rw [free] at isFree
      have began := @SlotCount.began_grow m d _ r { here with slot := slot } count
        (by rw [row]; exact sector) column.symm
      have longer := r.grow_run { here with slot := slot }
      have short := count.counting.short
      rw [if_pos rfl]
      split
      · exact ⟨_, count.counting.complete isFree (by omega), began⟩
      · refine ih (by omega) ⟨?_, fun _ => ?_⟩
        · rw [longer]
          exact count.counting.marked isFree (by omega)
        · have begins : k * 16 + (slot + 1) - (r.run + 1) = k * 16 + slot - r.run := by omega
          rw [longer, begins]
          exact began
    | false =>
      rw [free] at isFree
      exact ih (by omega) ⟨count.counting.unmarked isFree, fun some => absurd some (Nat.lt_irrefl 0)⟩

namespace RootReadable

variable (root : RootReadable m d)

include root

theorem geometry : exfatGeometryValid m := (exfatClusterValid_iff.mp root.valid).1

theorem sectorsPerCluster_pos : 0 < m.sectorsPerCluster :=
  exfatGeometryValid.sectorsPerCluster_pos root.geometry

theorem isLba (chain : rootChain m d i = some c) : exfatClusterLba m c ≠ u64Max :=
  Device.ne_of_accepts (root.reads i c chain 0 root.sectorsPerCluster_pos)

theorem rootSector_eq (chain : rootChain m d i = some c) (inside : j < m.sectorsPerCluster) :
    rootSector m d (i * m.sectorsPerCluster + j) = some (wrap64 (exfatClusterLba m c + j)) := by
  have positive := root.sectorsPerCluster_pos
  have row : (i * m.sectorsPerCluster + j) / m.sectorsPerCluster = i := by
    rw [Nat.add_comm, Nat.add_mul_div_right _ _ positive, Nat.div_eq_of_lt inside, Nat.zero_add]
  have column : (i * m.sectorsPerCluster + j) % m.sectorsPerCluster = j := by
    rw [Nat.add_comm, Nat.add_mul_mod_self_right, Nat.mod_eq_of_lt inside]
  rw [rootSector, row, column, chain, Option.map_some]

theorem scanSlotSectors_outcome {i c j left here r} (chain : rootChain m d i = some c)
    (inside : j + left = m.sectorsPerCluster) (count : SlotCount m d ((i * m.sectorsPerCluster + j) * 16) r) :
    SlotOutcome m d ((i + 1) * m.sectorsPerCluster * 16)
      (scanSlotSectors d here (exfatClusterLba m c) j left r) := by
  induction left generalizing j r with
  | zero =>
    have whole : i * m.sectorsPerCluster + j = (i + 1) * m.sectorsPerCluster := by
      rw [Nat.succ_mul, ← inside, Nat.add_zero]
    exact whole ▸ count
  | succ left ih =>
    have within : j < m.sectorsPerCluster := by omega
    simp only [scanSlotSectors, blockRead, root.reads i c chain j within, if_true]
    have scanned := @scanSlots_outcome m d (i * m.sectorsPerCluster + j) 0 16
      { here with sectorIndex := j, lba := wrap64 (exfatClusterLba m c + j) } r
      (root.rootSector_eq chain within) rfl count
    cases outcome : scanSlots (d.data (wrap64 (exfatClusterLba m c + j)))
        { here with sectorIndex := j, lba := wrap64 (exfatClusterLba m c + j) } 0 16 r with
    | found r' =>
      rw [outcome] at scanned
      exact scanned
    | exhausted r' =>
      rw [outcome] at scanned
      exact ih (by omega) scanned
    | failed r' =>
      rw [outcome] at scanned
      exact scanned

theorem noRow (ended : rootChain m d i = none) (count : SlotCount m d (i * m.sectorsPerCluster * 16) r) (g : Nat) :
    ¬RowAt (rootSlotFree m d) 3 g := by
  intro row
  by_cases before : g + 3 ≤ i * m.sectorsPerCluster * 16
  · exact count.counting.none g before row
  · have last := row 2 (by decide)
    have behind : i ≤ (g + 2) / 16 / m.sectorsPerCluster := by
      rw [Nat.le_div_iff_mul_le root.sectorsPerCluster_pos]
      omega
    have missing : rootChain m d ((g + 2) / 16 / m.sectorsPerCluster) = none := by
      cases found : rootChain m d ((g + 2) / 16 / m.sectorsPerCluster) with
      | none => rfl
      | some c =>
        obtain ⟨b, reached⟩ := exfatResolveCluster_earlier found behind
        rw [rootChain, reached] at ended
        cases ended
    simp [rootSlotFree, rootSector, missing] at last

/-- The clusters of the directory: the search stops at the first three free slots in a row, or it
    finds that there are none. -/
theorem scanSlotClusters_outcome (bound : i + left = m.exfat.clusterCount)
    (count : SlotCount m d (i * m.sectorsPerCluster * 16) r) :
    match scanSlotClusters m d i left r with
    | .found r' => SlotOutcome m d 0 (.found r')
    | _ => ∀ g, ¬RowAt (rootSlotFree m d) 3 g := by
  induction left generalizing i r with
  | zero =>
    obtain ⟨stop, ends⟩ := root.ends
    have ended : rootChain m d i = none := by
      cases found : rootChain m d i with
      | none => rfl
      | some c =>
        have short := exfatResolveCluster_lt (exfatGeometryValid.clusterEnd_eq root.geometry root.counted)
          (fun i j b here there => exfatResolveCluster_distinct ends here there) found
        omega
    exact root.noRow ended count
  | succ left ih =>
    cases chain : rootChain m d i with
    | none =>
      have resolved : exfatResolveCluster m d m.exfat.rootDirCluster 0 i = none := chain
      simp only [scanSlotClusters, resolved]
      exact root.noRow chain count
    | some c =>
      have resolved : exfatResolveCluster m d m.exfat.rootDirCluster 0 i = some c := chain
      have scanned := @scanSlotSectors_outcome m d root i c 0 m.sectorsPerCluster
        { cluster := c, clusterIndex := i } r chain (Nat.zero_add _) count
      simp only [scanSlotClusters, resolved, root.isLba chain]
      cases outcome : scanSlotSectors d { cluster := c, clusterIndex := i } (exfatClusterLba m c) 0
          m.sectorsPerCluster r with
      | found r' =>
        rw [outcome] at scanned
        exact scanned
      | exhausted r' =>
        rw [outcome] at scanned
        exact ih (by omega) scanned
      | failed r' =>
        rw [outcome] at scanned
        exact scanned.elim

/-- The search finds the first three free slots in a row, wherever they lie. -/
theorem findExfatRootDirectorySlot_eq :
    findExfatRootDirectorySlot m d = some (lba, off) ↔
      ∃ g, FirstRow (rootSlotFree m d) 3 g ∧ rootSector m d (g / 16) = some lba ∧ off = g % 16 * 32 := by
  have search : searchRootDirectorySlots m d = scanSlotClusters m d 0 m.exfat.clusterCount {} := by
    have positive := root.sectorsPerCluster_pos
    simp [searchRootDirectorySlots, root.valid, root.blockSize, beq_eq_false_iff_ne.mpr (Nat.ne_of_gt positive)]
  have start : SlotCount m d (0 * m.sectorsPerCluster * 16) {} := by
    rw [Nat.zero_mul]
    exact ⟨Counting.start (by decide), fun some => absurd some (Nat.lt_irrefl 0)⟩
  have scanned := root.scanSlotClusters_outcome (Nat.zero_add _) start
  rw [findExfatRootDirectorySlot, search]
  cases outcome : scanSlotClusters m d 0 m.exfat.clusterCount {} with
  | found r =>
    rw [outcome] at scanned
    obtain ⟨g, first, sector, slot⟩ := scanned
    simp only [Option.some.injEq, Prod.mk.injEq]
    constructor
    · rintro ⟨rfl, rfl⟩
      exact ⟨g, first, sector, by rw [slot]; rfl⟩
    · rintro ⟨h, first', sector', rfl⟩
      rw [first'.unique first, sector, Option.some.injEq] at sector'
      rw [first'.unique first, slot]
      exact ⟨sector', rfl⟩
  | exhausted r =>
    rw [outcome] at scanned
    constructor
    · intro found
      cases found
    · rintro ⟨g, first, -⟩
      exact absurd first.row (scanned g)
  | failed r =>
    rw [outcome] at scanned
    constructor
    · intro found
      cases found
    · rintro ⟨g, first, -⟩
      exact absurd first.row (scanned g)

end RootReadable

end Scan

/-- Some sector of the root directory has three free slots in a row. -/
def SectorRow (m : Mount) (d : Device) : Prop :=
  ∃ n slot, slot + 3 ≤ 16 ∧ RowAt (rootSlotFree m d) 3 (n * 16 + slot)

/-- If there is room for an entry set in some sector, the search yields such room. -/
def SlotSearchComplete (m : Mount) (d : Device) : Prop :=
  SectorRow m d → ∃ n slot lba, slot + 3 ≤ 16 ∧ rootSector m d n = some lba ∧
    RowAt (rootSlotFree m d) 3 (n * 16 + slot) ∧ findExfatRootDirectorySlot m d = some (lba, slot * 32)

/-- The search is complete exactly where the first three free slots in a row lie in one sector. -/
theorem slot_search_complete_iff {m : Mount} {d : Device} (root : RootReadable m d) :
    SlotSearchComplete m d ↔
      (SectorRow m d → ∀ g, FirstRow (rootSlotFree m d) 3 g → g % 16 + 3 ≤ 16) := by
  constructor
  · intro complete room g first
    obtain ⟨n, slot, lba, fits, -, -, found⟩ := complete room
    obtain ⟨h, first', -, place⟩ := root.findExfatRootDirectorySlot_eq.mp found
    rw [first.unique first']
    omega
  · intro fits room
    have ⟨n, slot, _, row⟩ := room
    obtain ⟨g, first⟩ := exists_firstRow row
    have whole := Nat.div_add_mod' g 16
    have here := first.row 0 (by decide)
    cases sector : rootSector m d (g / 16) with
    | none => simp [rootSlotFree, sector] at here
    | some lba =>
      refine ⟨g / 16, g % 16, lba, fits room g first, sector, whole.symm ▸ first.row, ?_⟩
      exact root.findExfatRootDirectorySlot_eq.mpr ⟨g, first, sector, rfl⟩

/-- A create is refused when the slots it is offered lie in two sectors. -/
theorem create_refused_at (found : findExfatRootDirectorySlot m fs.dev = some (lba, off))
    (straddles : 512 < off + 96) :
    createExfatTestFileWithClusters m fs path requested = (fs, false) := by
  simp only [createExfatTestFileWithClusters, found, exfatCreatePlanEntryBytes, straddles]
  split
  · rfl
  split
  · rfl
  split
  · rfl
  split
  · rfl
  · rfl

def twoSectorRoot : Mount where
  blockSize := 512
  exfat :=
    { present := true
      fatOffset := 1
      fatLength := 1
      clusterHeapOffset := 8
      clusterCount := 4
      rootDirCluster := 2
      bytesPerSectorShift := 9
      sectorsPerClusterShift := 1 }

/-- The first `used` slots of the directory are in use, all others have never been. -/
def directoryOf (used : Nat) : Device where
  blockCount := 16
  bounded := by decide
  writable := true
  fault _ := false
  data lba :=
    if lba = 1 then sectorOf [(8, le32 fatEnd)]
    else if lba = 8 then sectorOf ((List.range used).map fun slot => (slot * 32, [0x85]))
    else Buf.zero

theorem rootReadable_directoryOf : RootReadable twoSectorRoot (directoryOf used) := by
  have word : (sectorOf [(8, le32 fatEnd)]).readLe32 8 = fatEnd := by decide
  have ends : exfatReadFatEntry twoSectorRoot (directoryOf used) 2 = some fatEnd := word ▸ rfl
  refine ⟨by decide, by decide, rfl, ⟨1, ?_⟩, ?_⟩
  · cases found : rootChain twoSectorRoot (directoryOf used) 1 with
    | none => rfl
    | some c => exact absurd (SingleClusters.resolve_single ends found).1 (by decide)
  · intro i c chain j inside
    obtain ⟨-, rfl⟩ := SingleClusters.resolve_single ends chain
    have small : j < 2 := inside
    obtain rfl | rfl : j = 0 ∨ j = 1 := by omega
    · rfl
    · rfl

theorem slot_search_complete_twelve : SlotSearchComplete twoSectorRoot (directoryOf 12) := by
  refine (slot_search_complete_iff rootReadable_directoryOf).mpr fun _ g first => ?_
  have row : RowAt (rootSlotFree twoSectorRoot (directoryOf 12)) 3 12 := by decide
  have low : g ≤ 12 := Nat.not_lt.mp fun more => first.first 12 more row
  omega

/-- With fourteen slots in use the search stops at the last two slots of the first sector, and
    every create is refused, although the second sector is empty. -/
theorem slot_search_straddles :
    RootReadable twoSectorRoot (directoryOf 14) ∧ SectorRow twoSectorRoot (directoryOf 14) ∧
      findExfatRootDirectorySlot twoSectorRoot (directoryOf 14) = some (8, 448) ∧
      ¬SlotSearchComplete twoSectorRoot (directoryOf 14) ∧
      ∀ entries path requested,
        (createExfatTestFileWithClusters twoSectorRoot ⟨entries, directoryOf 14⟩ path requested).2 = false := by
  have found : findExfatRootDirectorySlot twoSectorRoot (directoryOf 14) = some (8, 448) := by decide
  have room : SectorRow twoSectorRoot (directoryOf 14) := ⟨1, 0, by decide, by decide⟩
  refine ⟨rootReadable_directoryOf, room, found, fun complete => ?_, fun entries path requested => ?_⟩
  · obtain ⟨n, slot, lba, fits, -, -, found'⟩ := complete room
    rw [found, Option.some.injEq, Prod.mk.injEq] at found'
    omega
  · rw [create_refused_at found (by decide)]

end TangPingOS
