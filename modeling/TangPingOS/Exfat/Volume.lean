import TangPingOS.Block
import TangPingOS.Lib.Words

/-! # exFAT volumes

The mount record of `kernel/blockfs.c`, the geometry checks made before every
cluster access, and the walk along the file allocation table. Fields of the C
record that only the text of `info.txt` shows are left out.

All numbers are naturals; where the C arithmetic is 32 or 64 bits wide and can
wrap, the reduction is written out.
-/

namespace TangPingOS

open Lib

def fatEnd : Nat := 0xffffffff

def exfatEntrySize : Nat := 32

def exfatAllocPlanClusterCount : Nat := 3

def exfatCreatePlanEntryBytes : Nat := 96

/-- `allocation_bitmap_*` fields: where the bitmap lies and what its scan found. -/
structure AllocationBitmap where
  present : Bool := false
  flags : UInt8 := 0
  cluster : Nat := 0
  size : Nat := 0
  scannedClusters : Nat := 0
  usedClusters : Nat := 0
  freeClusters : Nat := 0
  firstFreeCluster : Nat := 0
  complete : Bool := false

/-- `allocation_plan_*` fields: the first free clusters seen by the scan. -/
structure AllocationPlan where
  foundClusters : Nat := 0
  clusters : List Nat := []
  ready : Bool := false

/-- `create_plan_*` fields: a run of free directory slots and the entry set that
    is to fill it. -/
structure CreatePlan where
  foundEntries : Nat := 0
  directoryCluster : Nat := 0
  directoryClusterIndex : Nat := 0
  sectorIndex : Nat := 0
  firstSlot : Nat := 0
  entryLba : Nat := 0
  ready : Bool := false
  fileSize : Nat := 0
  firstCluster : Nat := 0
  nameHash : Nat := 0
  entrySetChecksum : Nat := 0
  entries : Buf 96 := Buf.zero
  entriesReady : Bool := false

/-- `transaction_*` fields: the bitmap byte, FAT words and directory bytes to write. -/
structure TransactionPlan where
  ready : Bool := false
  writeCount : Nat := 0
  bitmapLba : Nat := 0
  bitmapByteOffset : Nat := 0
  bitmapOldValue : UInt8 := 0
  bitmapNewValue : UInt8 := 0
  bitmapMask : UInt8 := 0
  fatLba : Nat := 0
  fatOffsets : List Nat := []
  fatOldValues : List Nat := []
  fatNewValues : List Nat := []
  directoryLba : Nat := 0
  directoryByteOffset : Nat := 0
  directoryByteCount : Nat := 0

/-- `patched_*` fields: what the patched sectors were read back to hold. -/
structure PatchedTransaction where
  ready : Bool := false
  bitmapValue : UInt8 := 0
  fatValues : List Nat := []
  directoryChecksum : Nat := 0
  directoryFirstCluster : Nat := 0
  directoryFileSize : Nat := 0
  directoryNameLength : Nat := 0
  directoryNameMatches : Bool := false

/-- `commit_*` fields. -/
structure Commit where
  supported : Bool := false
  attempted : Bool := false
  ready : Bool := false
  writeCount : Nat := 0
  verified : Bool := false

/-- `struct exfat_boot_info`, its prefixed groups of fields kept together. -/
structure ExfatBootInfo where
  present : Bool := false
  fatOffset : Nat := 0
  fatLength : Nat := 0
  clusterHeapOffset : Nat := 0
  clusterCount : Nat := 0
  rootDirCluster : Nat := 0
  bytesPerSectorShift : Nat := 0
  sectorsPerClusterShift : Nat := 0
  allocationBitmap : AllocationBitmap := {}
  allocationPlan : AllocationPlan := {}
  createPlan : CreatePlan := {}
  transaction : TransactionPlan := {}
  patched : PatchedTransaction := {}
  commit : Commit := {}

/-- `struct exfat_root_entry`. -/
structure RootEntry where
  parent : Bytes := []
  name : Bytes := []
  size : Nat := 0
  capacity : Nat := 0
  directoryLba : Nat := 0
  directoryByteOffset : Nat := 0
  firstCluster : Nat := 0
  attributes : Nat := 0
  streamFlags : Nat := 0
  isDir : Bool := false
  writable : Bool := false

/-- The part of `struct blockfs_mount` that file operations only read. The table
    of root entries, which they change, is kept in `Fs`. -/
structure Mount where
  blockSize : Nat
  exfat : ExfatBootInfo := {}

/-- What a mounted file system changes: the root entries in use, in table order,
    and the device. -/
structure Fs where
  rootEntries : List RootEntry
  dev : Device

def oneShiftedBy (shift : Nat) : Nat := if 63 ≤ shift then 0 else 2 ^ shift

namespace Mount

variable (m : Mount)

def sectorsPerCluster : Nat := oneShiftedBy m.exfat.sectorsPerClusterShift

/-- Bytes of a cluster in 64-bit arithmetic; zero when the shift is absurd. -/
def clusterSize : Nat := wrap64 (m.sectorsPerCluster * 512)

def clusterEnd : Nat := (m.exfat.clusterCount + 2) % 2 ^ 32

end Mount

variable (m : Mount)

def exfatGeometryValid : Bool :=
  m.exfat.present &&
  oneShiftedBy m.exfat.bytesPerSectorShift == m.blockSize &&
  decide (0 < m.sectorsPerCluster) &&
  decide (0 < m.exfat.clusterHeapOffset) &&
  decide (2 ≤ m.exfat.rootDirCluster) &&
  decide (m.exfat.rootDirCluster < m.clusterEnd)

def exfatClusterValid (cluster : Nat) : Bool :=
  exfatGeometryValid m && decide (2 ≤ cluster) && decide (cluster < m.clusterEnd)

def exfatClusterLba (cluster : Nat) : Nat :=
  if exfatClusterValid m cluster then
    wrap64 (m.exfat.clusterHeapOffset + (cluster - 2) * m.sectorsPerCluster)
  else u64Max

def exfatReadFatEntry (d : Device) (cluster : Nat) : Option Nat :=
  if exfatClusterValid m cluster then
    let fatByteOffset := cluster * 4
    let fatSector := m.exfat.fatOffset + fatByteOffset / 512
    let sectorOffset := fatByteOffset % 512
    if m.exfat.fatOffset + m.exfat.fatLength ≤ fatSector || decide (512 < sectorOffset + 4) then none
    else (blockRead d fatSector).map fun sector => sector.readLe32 sectorOffset
  else none

/-- The loop of `exfat_resolve_cluster`: follow `index` links from `cluster`. -/
def followFatChain (d : Device) (cluster : Nat) : Nat → Option Nat
  | 0 => some cluster
  | index + 1 => do
    let next ← exfatReadFatEntry m d cluster
    if decide (0xfffffff8 ≤ next) || !exfatClusterValid m next then none
    else followFatChain d next index

def exfatResolveCluster (d : Device) (firstCluster streamFlags clusterIndex : Nat) : Option Nat :=
  if !exfatClusterValid m firstCluster then none
  else if streamFlags &&& 0x02 != 0 then
    let cluster := (firstCluster + clusterIndex % 2 ^ 32) % 2 ^ 32
    if exfatClusterValid m cluster then some cluster else none
  else followFatChain m d firstCluster clusterIndex

end TangPingOS
