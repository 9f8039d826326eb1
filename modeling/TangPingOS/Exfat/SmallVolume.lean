import TangPingOS.Exfat.Effects
import TangPingOS.Exfat.Mount

/-! # Volumes whose directory and bitmap take one cluster each

A builder for such volumes, and that a few facts about a mount record make its
volume well-formed: with one cluster each, the two chains need no walking.
-/

namespace TangPingOS

open Lib

def sectorOf (parts : List (Nat × Bytes)) : Sector :=
  parts.foldl (fun s part => s.write part.1 part.2) Buf.zero

section

variable (fatLength heapOffset clusterCount rootCluster shift : Nat)

/-- A boot sector for 512-byte sectors, with the FAT from sector 1 on. -/
def bootSectorOf : Sector :=
  sectorOf
    [(3, exfatSignature), (80, le32 1), (84, le32 fatLength), (88, le32 heapOffset),
      (92, le32 clusterCount), (96, le32 rootCluster), (108, [9, UInt8.ofNat shift]),
      (510, [0x55, 0xaa])]

def bitmapEntryOf (cluster size : Nat) : Bytes :=
  [0x81] ++ List.replicate 19 0 ++ le32 cluster ++ le64 size

theorem sixteenClusters_fit : 2 + 16 * 2 ^ 0 < 2 ^ 64 := by decide

def smallDevice (bounded : heapOffset + clusterCount * 2 ^ shift < 2 ^ 64) (sectors : List (Nat × Sector)) :
    Device where
  blockCount := heapOffset + clusterCount * 2 ^ shift
  bounded := bounded
  writable := true
  fault _ := false
  data lba :=
    if lba = 0 then bootSectorOf fatLength heapOffset clusterCount rootCluster shift
    else (sectors.lookup lba).getD Buf.zero

end

/-- What is left to check of a volume whose two chains have one cluster each. -/
structure SingleClusters (m : Mount) (d : Device) : Prop where
  geometry : exfatGeometryValid m
  blockSize : m.blockSize = 512
  counted : m.clusterEnd = m.exfat.clusterCount + 2
  sized : m.clusterSize ≠ 0
  fatOutsideHeap : m.exfat.fatOffset + m.exfat.fatLength ≤ m.exfat.clusterHeapOffset
  fatCovers : (m.exfat.clusterCount + 2) * 4 ≤ m.exfat.fatLength * 512
  heapInside : m.exfat.clusterHeapOffset + m.exfat.clusterCount * m.sectorsPerCluster ≤ d.blockCount
  present : m.exfat.allocationBitmap.present
  bits : m.exfat.clusterCount ≤ 8 * min m.exfat.allocationBitmap.size m.clusterSize
  bitmapValid : exfatClusterValid m m.exfat.allocationBitmap.cluster
  rootEnd : exfatReadFatEntry m d m.exfat.rootDirCluster = some fatEnd
  bitmapEnd : exfatReadFatEntry m d m.exfat.allocationBitmap.cluster = some fatEnd
  rootUsed : readExfatBitmapBit m d m.exfat.rootDirCluster = some true
  bitmapUsed : readExfatBitmapBit m d m.exfat.allocationBitmap.cluster = some true
  writable : d.writable
  healthy : d.fault = fun _ => false

namespace SingleClusters

variable {m : Mount} {d : Device}

theorem resolve_single (ends : exfatReadFatEntry m d c = some fatEnd)
    (found : exfatResolveCluster m d c 0 i = some c') : i = 0 ∧ c' = c := by
  rw [exfatResolveCluster_zero_flags] at found
  split at found
  · cases i with
    | zero =>
      rw [followFatChain, Option.some.injEq] at found
      exact ⟨rfl, found.symm⟩
    | succ i =>
      have mark : decide (0xfffffff8 ≤ fatEnd) := by decide
      rw [followFatChain, ends, Option.bind_eq_bind, Option.bind_some, mark, Bool.true_or] at found
      cases found
  · cases found

variable (single : SingleClusters m d)

include single

theorem accepts (inside : lba < d.blockCount) : d.accepts lba := by
  simp [Device.accepts, single.healthy, inside]

theorem coversFat (valid : exfatClusterValid m c) : c * 4 / 512 < m.exfat.fatLength := by
  obtain ⟨_, _, high⟩ := exfatClusterValid_iff.mp valid
  have counted := single.counted
  have fatCovers := single.fatCovers
  omega

theorem io : IoSucceeds m d where
  writable := single.writable
  fat c valid := by
    have covered := single.coversFat valid
    have outside := single.fatOutsideHeap
    have inside := single.heapInside
    refine single.accepts ?_
    simp only [fatSector]
    omega
  heap c i valid small := by
    obtain ⟨_, low, high⟩ := exfatClusterValid_iff.mp valid
    have counted := single.counted
    have inside := single.heapInside
    exact single.accepts (Nat.lt_of_lt_of_le (heapSector_within (by omega) small) inside)

theorem volume : Volume m d where
  geometry := single.geometry
  blockSize := single.blockSize
  counted := single.counted
  sized := clusterSize_eq single.sized
  fatCovers _ valid := single.coversFat valid
  fatOutsideHeap := .inl single.fatOutsideHeap
  heapInside := single.heapInside
  io := single.io

theorem covers (valid : exfatClusterValid m c) : (locateExfatBitmapBit m d c).isSome := by
  have vol := single.volume
  obtain ⟨low, high⟩ := vol.valid_iff.mp valid
  have bits := single.bits
  have inBitmap : (c - 2) / 8 < m.exfat.allocationBitmap.size := by omega
  have inCluster : (c - 2) / 8 < m.clusterSize := by omega
  have inSectors : (c - 2) / 8 / 512 < m.sectorsPerCluster := by
    have sized := vol.sized
    omega
  have resolved : exfatResolveCluster m d m.exfat.allocationBitmap.cluster 0 0 =
      some m.exfat.allocationBitmap.cluster := by
    rw [exfatResolveCluster_zero_flags, if_pos single.bitmapValid, followFatChain]
  have reached := vol.exfatClusterLba_ne_max single.bitmapValid
  simp [locateExfatBitmapBit, valid, single.present, single.sized, single.blockSize, Nat.not_le.mpr inBitmap,
    Nat.div_eq_of_lt inCluster, Nat.mod_eq_of_lt inCluster, resolved, reached, Nat.not_le.mpr inSectors]

theorem wellFormed : WellFormed m d where
  geometry := single.geometry
  fatOutsideHeap := .inl single.fatOutsideHeap
  fatCovers _ valid := single.coversFat valid
  heapInside := single.heapInside
  bitmapCovers _ valid := single.covers valid
  rootUsed i c chain := by
    obtain ⟨_, rfl⟩ := resolve_single single.rootEnd chain
    exact single.rootUsed
  bitmapUsed i c chain := by
    obtain ⟨_, rfl⟩ := resolve_single single.bitmapEnd chain
    exact single.bitmapUsed

theorem apart (other : m.exfat.rootDirCluster ≠ m.exfat.allocationBitmap.cluster)
    (i j c : Nat) (root : rootChain m d i = some c) : bitmapChain m d j ≠ some c := by
  intro bitmap
  obtain ⟨_, isRoot⟩ := resolve_single single.rootEnd root
  obtain ⟨_, isBitmap⟩ := resolve_single single.bitmapEnd bitmap
  exact other (isRoot.symm.trans isBitmap)

end SingleClusters

def singleClusters (m : Mount) (d : Device) : Bool :=
  exfatGeometryValid m && m.blockSize == 512 && m.clusterEnd == m.exfat.clusterCount + 2 &&
  m.clusterSize != 0 && decide (m.exfat.fatOffset + m.exfat.fatLength ≤ m.exfat.clusterHeapOffset) &&
  decide ((m.exfat.clusterCount + 2) * 4 ≤ m.exfat.fatLength * 512) &&
  decide (m.exfat.clusterHeapOffset + m.exfat.clusterCount * m.sectorsPerCluster ≤ d.blockCount) &&
  m.exfat.allocationBitmap.present &&
  decide (m.exfat.clusterCount ≤ 8 * min m.exfat.allocationBitmap.size m.clusterSize) &&
  exfatClusterValid m m.exfat.allocationBitmap.cluster &&
  exfatReadFatEntry m d m.exfat.rootDirCluster == some fatEnd &&
  exfatReadFatEntry m d m.exfat.allocationBitmap.cluster == some fatEnd &&
  readExfatBitmapBit m d m.exfat.rootDirCluster == some true &&
  readExfatBitmapBit m d m.exfat.allocationBitmap.cluster == some true && d.writable

theorem SingleClusters.of_test (passed : singleClusters m d)
    (healthy : d.fault = fun _ => false) : SingleClusters m d := by
  simp only [singleClusters, Bool.and_eq_true, beq_iff_eq, bne_iff_ne, decide_eq_true_eq] at passed
  obtain ⟨⟨⟨⟨⟨⟨⟨⟨⟨⟨⟨⟨⟨⟨geometry, size⟩, counted⟩, sized⟩, outside⟩, fat⟩, heap⟩, present⟩, bits⟩, valid⟩,
    rootEnd⟩, bitmapEnd⟩, rootUsed⟩, bitmapUsed⟩, writable⟩ := passed
  exact ⟨geometry, size, counted, sized, outside, fat, heap, present, bits, valid, rootEnd, bitmapEnd,
    rootUsed, bitmapUsed, writable, healthy⟩

end TangPingOS
