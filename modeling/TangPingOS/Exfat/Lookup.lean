import TangPingOS.Exfat.Plan
import TangPingOS.Exfat.Reading

/-! # The scan of the bitmap against lookups

What a complete scan leaves in the mount record is what one would find by looking up
every cluster in turn.
-/

namespace TangPingOS

open Lib

/-- The record of the scan says what lookups of all clusters find. -/
structure ScanAgrees (m : Mount) (d : Device) : Prop where
  lookup : ∀ c, 2 ≤ c → c < m.exfat.clusterCount + 2 → ∃ used, readExfatBitmapBit m d c = some used
  used : m.exfat.allocationBitmap.usedClusters = (lookups m d true m.exfat.clusterCount).length
  free : m.exfat.allocationBitmap.freeClusters =
    m.exfat.clusterCount - (lookups m d true m.exfat.clusterCount).length
  first : m.exfat.allocationBitmap.firstFreeCluster = (lookups m d false m.exfat.clusterCount).headD 0
  plan : m.exfat.allocationPlan.clusters = (lookups m d false m.exfat.clusterCount).take 3
  found : m.exfat.allocationPlan.foundClusters = min 3 (lookups m d false m.exfat.clusterCount).length
  ready : m.exfat.allocationPlan.ready ↔ 3 ≤ (lookups m d false m.exfat.clusterCount).length

theorem readExfatBitmapBit_layout : readExfatBitmapBit m.layout d c = readExfatBitmapBit m d c := by
  simp only [readExfatBitmapBit, locateExfatBitmapBit, exfatResolveCluster_layout]
  rfl

theorem readExfatBitmapBit_scanned :
    readExfatBitmapBit (parseExfatAllocationBitmap m d) d c = readExfatBitmapBit m d c := by
  rw [← readExfatBitmapBit_layout, layout_parseExfatAllocationBitmap, readExfatBitmapBit_layout]

theorem lookups_scanned : lookups (parseExfatAllocationBitmap m d) d used n = lookups m d used n := by
  simp only [lookups, readExfatBitmapBit_scanned]

theorem parseExfatAllocationBitmap_complete
    (complete : (parseExfatAllocationBitmap m d).exfat.allocationBitmap.complete) :
    exfatClusterValid m m.exfat.allocationBitmap.cluster ∧ m.blockSize = 512 ∧
      m.sectorsPerCluster ≠ 0 ∧
      ∃ st, scanBitmapClusters m d m.exfat.clusterCount 0 m.exfat.allocationBitmap.size {} = some st ∧
        m.exfat.clusterCount ≤ st.bitIndex := by
  simp only [parseExfatAllocationBitmap] at complete
  split at complete
  · cases complete
  · rename_i begun
    simp only [Bool.or_eq_true, Bool.not_eq_true', bne_iff_ne, beq_iff_eq, not_or, Bool.not_eq_false,
      Decidable.not_not] at begun
    obtain ⟨⟨⟨-, valid⟩, blockSize⟩, positive⟩ := begun
    split at complete
    · cases complete
    · rename_i st ran
      exact ⟨valid, blockSize, positive, st, ran, of_decide_eq_true complete⟩

/-- A complete scan agrees with lookups. -/
theorem complete_scan_agrees_with_lookups {m : Mount} {d : Device} (counted : m.exfat.clusterCount < 2 ^ 32)
    (present : m.exfat.allocationBitmap.present = true) (sized : m.clusterSize ≠ 0)
    (complete : (parseExfatAllocationBitmap m d).exfat.allocationBitmap.complete = true) :
    ScanAgrees (parseExfatAllocationBitmap m d) d := by
  obtain ⟨valid, blockSize, positive, st, ran, whole⟩ := parseExfatAllocationBitmap_complete complete
  obtain ⟨geometry, -, -⟩ := exfatClusterValid_iff.mp valid
  have tallied := scan_tallied ⟨geometry, exfatGeometryValid.clusterEnd_eq geometry counted, blockSize, clusterSize_eq sized,
    Nat.pos_of_ne_zero positive, present⟩ ran
  have all := Nat.le_antisymm tallied.within whole
  have record : parseExfatAllocationBitmap m d =
      { m with exfat := { m.exfat with
          allocationBitmap := { m.exfat.allocationBitmap with
            scannedClusters := st.bitIndex
            usedClusters := st.used
            complete := decide (m.exfat.clusterCount ≤ st.bitIndex)
            freeClusters := if m.exfat.clusterCount ≤ st.bitIndex then m.exfat.clusterCount - st.used
              else if st.used ≤ st.bitIndex then st.bitIndex - st.used else 0
            firstFreeCluster := st.firstFree }
          allocationPlan :=
            { foundClusters := st.plan.length
              clusters := st.plan
              ready := decide (exfatAllocPlanClusterCount ≤ st.plan.length) } } } := by
    simp [parseExfatAllocationBitmap, present, valid, blockSize, positive, ran]
  have sameCount : (parseExfatAllocationBitmap m d).exfat.clusterCount = m.exfat.clusterCount := by
    rw [record]
  obtain ⟨-, found, used, firstFree, plan⟩ := tallied
  rw [all] at found used firstFree plan
  constructor
  · intro c low high
    rw [readExfatBitmapBit_scanned]
    exact found c low (sameCount ▸ high)
  all_goals rw [lookups_scanned, record]
  · exact used
  · rw [← used]
    exact if_pos whole
  · exact firstFree
  · exact plan
  · simp [plan]
  · simp only [plan, List.length_take, exfatAllocPlanClusterCount, decide_eq_true_eq]
    omega

/-- The volume of sixteen clusters with a bitmap of two bytes in cluster 3. -/
def sixteenBits : Mount :=
  { sixteenClusters with exfat := { sixteenClusters.exfat with
      allocationBitmap := { present := true, cluster := 3, size := 2 } } }

/-- Clusters 2, 3, 5 and 17 are used. -/
def usedDevice : Device :=
  { blankDevice with data := fun lba => if lba = 9 then Buf.zero.write 0 [0x0b, 0x80] else Buf.zero }

theorem complete_scan_agrees_with_lookups_sixteen :
    (parseExfatAllocationBitmap sixteenBits usedDevice).exfat.allocationPlan.clusters = [4, 6, 7] ∧
      ScanAgrees (parseExfatAllocationBitmap sixteenBits usedDevice) usedDevice :=
  ⟨by decide +kernel, complete_scan_agrees_with_lookups (by decide) rfl (by decide) (by decide +kernel)⟩

end TangPingOS
