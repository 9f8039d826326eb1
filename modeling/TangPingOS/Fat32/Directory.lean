import TangPingOS.Exfat.Directory

/-! # FAT32 directories

The part of `kernel/blockfs.c` that reads FAT32 volumes: the chain of clusters, and the
directory parser with its decoder for long names. A directory entry is the buffer of its 32
bytes. The decoder's state is a local variable that is only partly cleared, so what it holds
when the parser starts is a parameter. Reading the boot sector and log lines are left out.
-/

namespace TangPingOS

open Lib

/-- The fields of `struct fat32_boot_info` that something is computed from. -/
structure Fat32BootInfo where
  present : Bool := false
  bytesPerSector : Nat := 0
  sectorsPerCluster : Nat := 0
  reservedSectors : Nat := 0
  numberOfFats : Nat := 0
  totalSectors : Nat := 0
  fatSizeSectors : Nat := 0
  rootDirCluster : Nat := 0

/-- The part of `struct blockfs_mount` that the parser only reads. -/
structure Fat32Mount where
  blockSize : Nat
  fat32 : Fat32BootInfo

namespace Fat32Mount

/-- `fat32_data_start_lba`. -/
def dataStartLba (m : Fat32Mount) : Nat :=
  m.fat32.reservedSectors + m.fat32.numberOfFats * m.fat32.fatSizeSectors

/-- `fat32_geometry_valid`. -/
def geometryValid (m : Fat32Mount) : Bool :=
  if !m.fat32.present || m.fat32.bytesPerSector != m.blockSize || m.fat32.sectorsPerCluster == 0 ||
      m.fat32.reservedSectors == 0 || m.fat32.numberOfFats == 0 || m.fat32.fatSizeSectors == 0 ||
      decide (m.fat32.rootDirCluster < 2) then false
  else decide (m.dataStartLba < m.fat32.totalSectors)

/-- `fat32_cluster_count`. -/
def clusterCount (m : Fat32Mount) : Nat :=
  if !m.geometryValid then 0 else (m.fat32.totalSectors - m.dataStartLba) / m.fat32.sectorsPerCluster

/-- `fat32_cluster_valid`. -/
def clusterValid (m : Fat32Mount) (cluster : Nat) : Bool :=
  decide (2 ≤ cluster) && decide (cluster < m.clusterCount + 2)

/-- `fat32_cluster_lba`: none for the result -1. -/
def clusterLba (m : Fat32Mount) (cluster : Nat) : Option Nat :=
  if !m.clusterValid cluster then none
  else some (m.dataStartLba + (cluster - 2) * m.fat32.sectorsPerCluster)

/-- `fat32_read_fat_entry`. -/
def readFatEntry (m : Fat32Mount) (d : Device) (cluster : Nat) : Option Nat :=
  let fatSector := m.fat32.reservedSectors + cluster * 4 / 512
  if !m.clusterValid cluster then none
  else if m.fat32.reservedSectors + m.fat32.fatSizeSectors ≤ fatSector then none
  else (blockRead d fatSector).map fun sector => sector.readLe32 (cluster * 4 % 512) % 2 ^ 28

/-- The loop of `fat32_resolve_cluster`. -/
def followChain (m : Fat32Mount) (d : Device) : Nat → Nat → Option Nat
  | 0, cluster => some cluster
  | left + 1, cluster =>
    match m.readFatEntry d cluster with
    | none => none
    | some next =>
      if 0x0ffffff8 ≤ next ∨ !m.clusterValid next then none else m.followChain d left next

/-- `fat32_resolve_cluster`. -/
def resolveCluster (m : Fat32Mount) (d : Device) (firstCluster clusterIndex : Nat) : Option Nat :=
  if !m.clusterValid firstCluster then none else m.followChain d clusterIndex firstCluster

end Fat32Mount

abbrev FatEntry := Buf 32

def dropBlanks (field : Bytes) : Bytes := (field.reverse.dropWhile fun c => c == 0x20).reverse

section

variable (entry : FatEntry)

/-- `fat32_short_name_to_text`; both parts and the dot fit the buffer. A zero byte ends the text. -/
def fat32ShortNameToText : Bytes :=
  let name := dropBlanks (entry.slice 0 8)
  let ext := dropBlanks (entry.slice 8 3)
  (if ext = [] then name else name ++ [0x2e] ++ ext).takeWhile fun c => c != 0

/-- One round of `fat32_short_name_checksum`. -/
def shortNameChecksumStep (sum c : UInt8) : UInt8 := (if sum &&& 1 = 0 then 0 else 0x80) + sum / 2 + c

def fat32ShortNameChecksum : UInt8 :=
  (entry.slice 0 11).foldl shortNameChecksumStep 0

/-- `struct fat32_lfn_state`. -/
structure LfnState where
  name : Buf 64
  checksum : UInt8
  totalEntries : UInt8
  seenEntries : UInt8
  present : Bool
  valid : Bool

/-- `fat32_lfn_reset`: of the name only the first byte is cleared. -/
def fat32LfnReset (state : LfnState) : LfnState :=
  { name := state.name.set 0 0
    checksum := 0
    totalEntries := 0
    seenEntries := 0
    present := false
    valid := false }

def lfnOffsets : List Nat := [1, 3, 5, 7, 9, 14, 16, 18, 20, 22, 24, 28, 30]

/-- The loop of `fat32_lfn_decode_entry`, from the character for index `out` of the name on. -/
def lfnDecodeChars : List Nat → Nat → Buf 64 → Buf 64
  | [], _, name => name
  | off :: rest, out, name =>
    let ch := entry.readLe16 off
    if ch = 0 then name.set out 0
    else if ch = 0xffff then name
    else if 64 ≤ out + 1 then lfnDecodeChars rest (out + 1) name
    else lfnDecodeChars rest (out + 1) (name.set out (if ch < 0x80 then UInt8.ofNat ch else 0x3f))

/-- The end of `fat32_lfn_decode_entry`, for an entry that belongs to the name being decoded. -/
def lfnAccept (state : LfnState) : LfnState :=
  { state with
    name := lfnDecodeChars entry lfnOffsets (((entry.get 0 &&& 0x1f).toNat - 1) * 13) state.name
    seenEntries := state.seenEntries + 1
    present := true }

def fat32LfnDecodeEntry (state : LfnState) : LfnState :=
  let order := entry.get 0 &&& 0x1f
  if order = 0 ∨ 5 < order then fat32LfnReset state
  else if entry.get 0 &&& 0x40 ≠ 0 then
    lfnAccept entry
      { fat32LfnReset state with totalEntries := order, checksum := entry.get 13, valid := true }
  else if !state.valid ∨ state.totalEntries < order ∨ entry.get 13 ≠ state.checksum then
    fat32LfnReset state
  else lfnAccept entry state

def fat32EntryValid : Bool :=
  entry.get 0 != 0 && entry.get 0 != 0xe5 && entry.get 0 != 0x05 && entry.get 0 != 0x2e &&
    entry.get 11 != 0x0f && entry.get 11 &&& 0x08 == 0

/-- The characters in front of the terminating zero, as far as `copy_limited` looks. -/
def bufferText (name : Buf 64) : Bytes := copyLimited 64 ((name.slice 0 64).takeWhile fun c => c != 0)

/-- The test of `parse_fat32_directory_cluster` on the decoder in front of a short entry. -/
def longNameTaken (lfn : LfnState) : Bool :=
  lfn.valid && lfn.present && lfn.name.get 0 != 0 && lfn.seenEntries == lfn.totalEntries &&
    lfn.checksum == fat32ShortNameChecksum entry

def fat32EntryName (lfn : LfnState) : Bytes :=
  if longNameTaken entry lfn then bufferText lfn.name else fat32ShortNameToText entry

end

/-- What the parser of a cluster keeps: the decoder, and the table of the mount. -/
structure FatParse where
  lfn : LfnState
  entries : List RootEntry

/-- One round of the inner loop of `parse_fat32_directory_cluster`; none at the end mark. -/
def parseFat32Entry (parent : Bytes) (entry : FatEntry) (st : FatParse) : Option FatParse :=
  if entry.get 0 = 0 then none
  else if entry.get 0 = 0xe5 then some { st with lfn := fat32LfnReset st.lfn }
  else if entry.get 11 = 0x0f then some { st with lfn := fat32LfnDecodeEntry entry st.lfn }
  else if !fat32EntryValid entry then some { st with lfn := fat32LfnReset st.lfn }
  else
    let firstCluster := entry.readLe16 20 * 2 ^ 16 + entry.readLe16 26
    some
      { lfn := fat32LfnReset st.lfn
        entries := st.entries ++ (addExfatRootEntry st.entries parent (fat32EntryName entry st.lfn)
          (entry.readLe32 28) firstCluster (entry.get 11).toNat 0).toList }

/-- The entries of a sector or of a cluster; the Boolean says that the end mark was met. -/
def parseFat32Entries (parent : Bytes) : List FatEntry → FatParse → FatParse × Bool
  | [], st => (st, false)
  | entry :: rest, st =>
    match parseFat32Entry parent entry st with
    | none => (st, true)
    | some st => parseFat32Entries parent rest st

def sectorEntries (sector : Sector) : List FatEntry :=
  (List.range 16).map fun k => ⟨fun i => sector.get (k * 32 + i)⟩

/-- The outer loop of `parse_fat32_directory_cluster`, `left` sectors from `lba` on. -/
def parseFat32Sectors (d : Device) (parent : Bytes) : Nat → Nat → FatParse → FatParse
  | 0, _, st => st
  | left + 1, lba, st =>
    match blockRead d lba with
    | none => st
    | some sector =>
      match parseFat32Entries parent (sectorEntries sector) st with
      | (st, true) => st
      | (st, false) => parseFat32Sectors d parent left (lba + 1) st

/-- `parse_fat32_directory_cluster`: the table of the mount afterwards. `stack` is what the decoder's
    variable holds before it is reset. -/
def parseFat32DirectoryCluster (m : Fat32Mount) (d : Device) (parent : Bytes) (stack : LfnState)
    (cluster : Nat) (entries : List RootEntry) : List RootEntry :=
  match m.clusterLba cluster with
  | none => entries
  | some lba =>
    (parseFat32Sectors d parent m.fat32.sectorsPerCluster lba ⟨fat32LfnReset stack, entries⟩).entries

/-- `parse_fat32_directory_chain`, at most `guard` clusters. The decoder's variable may hold something
    else for every cluster. -/
def parseFat32DirectoryChain (m : Fat32Mount) (d : Device) (parent : Bytes) (stack : Nat → LfnState) :
    Nat → Nat → List RootEntry → List RootEntry
  | 0, _, entries => entries
  | guard + 1, cluster, entries =>
    let entries := parseFat32DirectoryCluster m d parent (stack guard) cluster entries
    match m.readFatEntry d cluster with
    | none => entries
    | some next =>
      if 0x0ffffff8 ≤ next ∨ !m.clusterValid next then entries
      else parseFat32DirectoryChain m d parent stack guard next entries

variable (m : Fat32Mount) (d : Device) (stack : Nat → Nat → LfnState)

/-- The loop of `parse_fat32_root_directory` over the table, which grows meanwhile, from entry `i` on. -/
def parseFat32Subdirectories :
    Nat → Nat → List RootEntry → List RootEntry
  | 0, _, entries => entries
  | left + 1, i, entries =>
    match entries[i]? with
    | none => entries
    | some entry =>
      if !entry.isDir || !m.clusterValid entry.firstCluster then
        parseFat32Subdirectories left (i + 1) entries
      else
        match joinChildPath entry.parent entry.name with
        | none => parseFat32Subdirectories left (i + 1) entries
        | some childPath =>
          parseFat32Subdirectories left (i + 1)
            (parseFat32DirectoryChain m d childPath (stack (i + 1)) m.clusterCount entry.firstCluster
              entries)

def parseFat32RootDirectory : List RootEntry :=
  parseFat32Subdirectories m d stack maxRootEntries 0
    (parseFat32DirectoryChain m d rootPath (stack 0) m.clusterCount m.fat32.rootDirCluster [])

end TangPingOS
