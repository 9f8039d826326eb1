import TangPingOS.Exfat.Transaction

/-! # The allocation bitmap

One bit a cluster, stored in the clusters of its own FAT chain. The mount scans
it from the first bit on; the file operations locate single bits.
-/

namespace TangPingOS

open Lib

/-- Where a cluster's bit is stored: sector, byte in it, and the bit's number. -/
structure BitPlace where
  lba : Nat
  offset : Nat
  bit : Nat

def BitPlace.mask (p : BitPlace) : UInt8 := UInt8.ofNat (2 ^ p.bit)

/-- `locate_exfat_bitmap_bit_for_test`. -/
def locateExfatBitmapBit (m : Mount) (d : Device) (cluster : Nat) : Option BitPlace :=
  let bit := cluster - 2
  let byteIndex := bit / 8
  if !exfatClusterValid m cluster || !m.exfat.allocationBitmap.present || m.clusterSize == 0 ||
      decide (m.exfat.allocationBitmap.size ≤ byteIndex) || m.blockSize != 512 then none
  else
    let byteOffsetInCluster := byteIndex % m.clusterSize
    let sectorIndex := byteOffsetInCluster / 512
    match exfatResolveCluster m d m.exfat.allocationBitmap.cluster 0
        (byteIndex / m.clusterSize) with
    | none => none
    | some bitmapCluster =>
      let lba := exfatClusterLba m bitmapCluster
      if lba = u64Max ∨ m.sectorsPerCluster ≤ sectorIndex then none
      else some ⟨wrap64 (lba + sectorIndex), byteOffsetInCluster % 512, bit % 8⟩

/-- `read_exfat_bitmap_bit_for_test`. -/
def readExfatBitmapBit (m : Mount) (d : Device) (cluster : Nat) : Option Bool :=
  match locateExfatBitmapBit m d cluster with
  | none => none
  | some place =>
    (blockRead d place.lba).map fun sector => bitSet (sector.get place.offset) place.bit

/-- `set_exfat_bitmap_bit_in_transaction_for_test`, and its clearing twin. -/
def writeExfatBitmapBitInTransaction (set : Bool) (m : Mount) (d : Device) (tx : Transaction)
    (cluster : Nat) : Option Transaction :=
  match locateExfatBitmapBit m d cluster with
  | none => none
  | some place => tx.mutate m d place.lba (.bit place.offset place.mask set)

def setExfatBitmapBitInTransaction := writeExfatBitmapBitInTransaction true

def clearExfatBitmapBitInTransaction := writeExfatBitmapBitInTransaction false

variable (m : Mount) (d : Device)

/-- `write_exfat_fat_entry_in_transaction_for_test`. -/
def writeExfatFatEntryInTransaction (tx : Transaction) (cluster value : Nat) : Option Transaction :=
  if !exfatClusterValid m cluster then none
  else
    let fatSector := m.exfat.fatOffset + cluster * 4 / 512
    let sectorOffset := cluster * 4 % 512
    if m.exfat.fatOffset + m.exfat.fatLength ≤ fatSector ∨ 512 < sectorOffset + 4 then none
    else tx.mutate m d fatSector (.u32 sectorOffset value)

/-- Counters of `count_exfat_bitmap_sector_used`. -/
structure BitmapScan where
  bitIndex : Nat := 0
  used : Nat := 0
  firstFree : Nat := 0
  plan : List Nat := []

def BitmapScan.step (st : BitmapScan) (used : Bool) : BitmapScan :=
  if used then { st with used := st.used + 1, bitIndex := st.bitIndex + 1 }
  else
    { st with
      firstFree := if st.firstFree = 0 then (st.bitIndex + 2) % 2 ^ 32 else st.firstFree
      plan := if st.plan.length < exfatAllocPlanClusterCount then
        st.plan ++ [(st.bitIndex + 2) % 2 ^ 32] else st.plan
      bitIndex := st.bitIndex + 1 }

/-- Bits `bit ..` of one byte, `left` of them. -/
def scanBits (clusterCount : Nat) (value : UInt8) (bit : Nat) : Nat → BitmapScan → BitmapScan
  | 0, st => st
  | left + 1, st =>
    if st.bitIndex < clusterCount then
      scanBits clusterCount value (bit + 1) left (st.step (bitSet value bit))
    else st

/-- `count_exfat_bitmap_sector_used`: the bytes of one sector from `byteIndex` on. -/
def scanBytes (clusterCount : Nat) (sector : Sector) (byteIndex : Nat) : Nat → BitmapScan →
    BitmapScan
  | 0, st => st
  | left + 1, st =>
    if st.bitIndex < clusterCount then
      scanBytes clusterCount sector (byteIndex + 1) left
        (scanBits clusterCount (sector.get byteIndex) 0 8 st)
    else st

/-- The sectors of one bitmap cluster; yields the bytes still to scan. -/
def scanBitmapSectors (lba sectorIndex : Nat) : Nat → Nat → BitmapScan →
    Option (Nat × BitmapScan)
  | 0, remaining, st => some (remaining, st)
  | left + 1, remaining, st =>
    if 0 < remaining ∧ st.bitIndex < m.exfat.clusterCount then
      (blockRead d (wrap64 (lba + sectorIndex))).bind fun sector =>
        scanBitmapSectors lba (sectorIndex + 1) left (remaining - min 512 remaining)
          (scanBytes m.exfat.clusterCount sector 0 (min 512 remaining) st)
    else some (remaining, st)

/-- The clusters of the bitmap. Every round scans a bit, so `clusterCount` rounds are enough. -/
def scanBitmapClusters : Nat → Nat → Nat → BitmapScan → Option BitmapScan
  | 0, _, _, st => some st
  | fuel + 1, clusterIndex, remaining, st =>
    if 0 < remaining ∧ st.bitIndex < m.exfat.clusterCount then
      (exfatResolveCluster m d m.exfat.allocationBitmap.cluster 0 clusterIndex).bind fun cluster =>
        let lba := exfatClusterLba m cluster
        if lba = u64Max then none
        else
          (scanBitmapSectors m d lba 0 m.sectorsPerCluster remaining st).bind fun next =>
            scanBitmapClusters fuel (clusterIndex + 1) next.1 next.2
    else some st

def parseExfatAllocationBitmap : Mount :=
  let bitmap := { m.exfat.allocationBitmap with
    scannedClusters := 0, usedClusters := 0, freeClusters := 0, firstFreeCluster := 0,
    complete := false }
  let reset : Mount :=
    { m with exfat := { m.exfat with allocationBitmap := bitmap, allocationPlan := {} } }
  if !bitmap.present || !exfatClusterValid m bitmap.cluster || m.blockSize != 512 ||
      m.sectorsPerCluster == 0 then reset
  else
    match scanBitmapClusters m d m.exfat.clusterCount 0 bitmap.size {} with
    | none => reset
    | some st =>
      { m with exfat := { m.exfat with
          allocationBitmap := { bitmap with
            scannedClusters := st.bitIndex
            usedClusters := st.used
            complete := decide (m.exfat.clusterCount ≤ st.bitIndex)
            freeClusters := if m.exfat.clusterCount ≤ st.bitIndex then m.exfat.clusterCount - st.used
              else if st.used ≤ st.bitIndex then st.bitIndex - st.used else 0
            firstFreeCluster := st.firstFree }
          allocationPlan :=
            { foundClusters := st.plan.length
              clusters := st.plan
              ready := decide (exfatAllocPlanClusterCount ≤ st.plan.length) } } }

end TangPingOS
