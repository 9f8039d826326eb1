import TangPingOS.Exfat.Volume

/-! # exFAT directories

Entry sets: how they are encoded for a test file, how `parse_exfat_directory_sector`
decodes them, and how a run of three free slots is looked for. Strings are byte
lists without their terminating NUL.
-/

namespace TangPingOS

open Lib

/-- `"/"`. -/
def rootPath : Bytes := [0x2f]

/-- `EXFAT_CREATE_PLAN_NAME`, the file every test mount creates. -/
def newTxt : Bytes := ['N', 'E', 'W', '.', 'T', 'X', 'T'].map Char.toUInt8

def maxRootEntries : Nat := 32

/-- `copy_limited`: at most `len - 1` characters fit a buffer of `len` bytes. -/
def copyLimited (len : Nat) (src : Bytes) : Bytes := src.take (len - 1)

/-- `join_child_path` into a buffer of `VFS_MOUNT_PATH_MAX` bytes. -/
def joinChildPath (parent name : Bytes) : Option Bytes :=
  if name.isEmpty then none
  else if parent = rootPath then
    if 63 < 1 + name.length then none else some (rootPath ++ name)
  else if 64 ≤ parent.length + 2 then none
  else if 63 < parent.length + 1 + name.length then none
  else some (parent ++ rootPath ++ name)

def exfatChecksumStep (checksum : Nat) (value : UInt8) : Nat :=
  ((if checksum % 2 = 1 then 0x8000 else 0) + checksum / 2 + value.toNat) % 2 ^ 16

def exfatNameHash (name : Bytes) : Nat :=
  name.foldl (fun hash c => exfatChecksumStep (exfatChecksumStep hash c) 0) 0

/-- The checksum of an entry set leaves out the two bytes that store it. -/
def exfatEntrySetChecksum (entries : Bytes) (entryCount : Nat) : Nat :=
  (List.range (entryCount * exfatEntrySize)).foldl
    (fun checksum i =>
      if i = 2 ∨ i = 3 then checksum else exfatChecksumStep checksum (entries.getD i 0)) 0

/-- `encode_exfat_name_entry`: type `0xc1`, then up to fifteen UTF-16 characters. -/
def exfatNameEntry (name : Bytes) : Bytes :=
  (List.range exfatEntrySize).map fun i =>
    if i = 0 then 0xc1 else if 2 ≤ i ∧ i % 2 = 0 then (name.take 15).getD ((i - 2) / 2) 0 else 0

/-- Store the checksum of the set at `off` in its own bytes 2 and 3. -/
def sealEntrySet {n : Nat} (b : Buf n) (off : Nat) : Buf n :=
  let cleared := b.write (off + 2) (le16 0)
  cleared.write (off + 2) (le16 (exfatEntrySetChecksum (cleared.slice off 96) 3))

def fileAndStreamEntries (name : Bytes) (firstCluster size : Nat) : Buf 96 :=
  let file := ((Buf.zero.set 0 0x85).set 1 2).write 4 (le16 0x20)
  let stream := (((file.set 32 0xc0).set 33 0).set 35 (UInt8.ofNat name.length)).write 36
    (le16 (exfatNameHash name))
  ((stream.write 40 (le64 size)).write 52 (le32 firstCluster)).write 56 (le64 size)

/-- `encode_exfat_file_entries_for_test`, and with it the same bytes as
    `encode_exfat_create_plan_entries` writes for its fixed name. -/
def encodeExfatFileEntries (name : Bytes) (firstCluster size : Nat) : Buf 96 :=
  sealEntrySet ((fileAndStreamEntries name firstCluster size).write 64 (exfatNameEntry name)) 0

/-- `append_exfat_name_chars` from character `i` of the name entry at `off`. -/
def appendExfatNameChars (sector : Sector) (off expected : Nat) (i : Nat) : Nat → Bytes → Bytes
  | 0, name => name
  | left + 1, name =>
    if name.length < expected then
      let low := sector.get (off + 2 + i * 2)
      let high := sector.get (off + 3 + i * 2)
      if low = 0 ∧ high = 0 then name
      else
        let c := if high = 0 ∧ 32 ≤ low ∧ low < 127 then low else 0x3f
        appendExfatNameChars sector off expected (i + 1) left
          (if name.length + 1 < 64 then name ++ [c] else name)
    else name

/-- What the secondary entries of a set have told so far. -/
structure SetInfo where
  streamFlags : Nat := 0
  nameLen : Nat := 0
  firstCluster : Nat := 0
  size : Nat := 0
  name : Bytes := []

def SetInfo.add (info : SetInfo) (sector : Sector) (off : Nat) : SetInfo :=
  if sector.get off = 0xc0 then
    { info with
      streamFlags := (sector.get (off + 1)).toNat
      nameLen := (sector.get (off + 3)).toNat
      firstCluster := sector.readLe32 (off + 20)
      size := sector.readLe64 (off + 24) }
  else if sector.get off = 0xc1 ∧ 0 < info.nameLen then
    { info with name := appendExfatNameChars sector off info.nameLen 0 15 info.name }
  else info

/-- The secondary loop over `left` further slots from `slot` on. -/
def scanSecondaries (sector : Sector) (slot : Nat) : Nat → SetInfo → SetInfo
  | 0, info => info
  | left + 1, info =>
    scanSecondaries sector (slot + 1) left (info.add sector (slot * exfatEntrySize))

/-- `add_exfat_root_entry`: the entry to append, unless the table is full or the
    name empty. -/
def addExfatRootEntry (entries : List RootEntry) (parent name : Bytes)
    (size firstCluster attributes streamFlags : Nat) : Option RootEntry :=
  if maxRootEntries ≤ entries.length ∨ name = [] then none
  else some
    { parent := copyLimited 64 parent
      name := copyLimited 64 name
      size := size
      capacity := size
      directoryLba := 0
      directoryByteOffset := 0
      firstCluster := firstCluster
      attributes := attributes
      streamFlags := streamFlags
      isDir := attributes &&& 0x10 != 0
      writable := false }

/-- What parsing a directory changes in the mount. -/
structure DirParse where
  bitmap : AllocationBitmap
  entries : List RootEntry
  stop : Bool := false

def parseExfatAllocationBitmapEntry (bitmap : AllocationBitmap) (sector : Sector) (off : Nat)
    (parent : Bytes) : AllocationBitmap :=
  if parent = rootPath then
    { bitmap with
      present := true
      flags := sector.get (off + 1)
      cluster := sector.readLe32 (off + 20)
      size := sector.readLe64 (off + 24) }
  else bitmap

/-- The in-use file set whose primary entry is at `slot`. -/
def parseFileSet (sector : Sector) (slot : Nat) : SetInfo :=
  scanSecondaries sector (slot + 1)
    (min (sector.get (slot * exfatEntrySize + 1)).toNat (15 - slot)) {}

/-- `parse_exfat_directory_sector` from `slot` on; every round moves at least one slot. -/
def parseSlots (sector : Sector) (parent : Bytes) : Nat → Nat → DirParse → DirParse
  | 0, _, st => st
  | fuel + 1, slot, st =>
    if 16 ≤ slot then st
    else
      let off := slot * exfatEntrySize
      let type := sector.get off
      if type = 0 then { st with stop := true }
      else if type = 0x81 then
        parseSlots sector parent fuel (slot + 1)
          { st with bitmap := parseExfatAllocationBitmapEntry st.bitmap sector off parent }
      else if type ≠ 0x85 then parseSlots sector parent fuel (slot + 1) st
      else
        let info := parseFileSet sector slot
        let entries :=
          match addExfatRootEntry st.entries parent info.name info.size info.firstCluster
            (sector.readLe16 (off + 4)) info.streamFlags with
          | none => st.entries
          | some entry => st.entries ++ [entry]
        parseSlots sector parent fuel (slot + (sector.get (off + 1)).toNat + 1)
          { st with entries := entries }

def parseExfatDirectorySector (sector : Sector) (parent : Bytes) (st : DirParse) : DirParse :=
  parseSlots sector parent 16 0 st

/-- The `left` sectors of one directory cluster from `sectorIndex` on; `false` when a
    read fails. -/
def parseDirectorySectors (d : Device) (parent : Bytes) (lba sectorIndex : Nat) : Nat → DirParse →
    DirParse × Bool
  | 0, st => (st, true)
  | left + 1, st =>
    if st.stop then (st, true)
    else
      match blockRead d (wrap64 (lba + sectorIndex)) with
      | none => (st, false)
      | some sector =>
        parseDirectorySectors d parent lba (sectorIndex + 1) left
          (parseExfatDirectorySector sector parent st)

section

variable (m : Mount) (d : Device) (parent : Bytes) (firstCluster streamFlags : Nat)

/-- The clusters of a directory chain from `clusterIndex` on. -/
def parseDirectoryClusters : Nat → Nat → DirParse → DirParse
  | 0, _, st => st
  | left + 1, clusterIndex, st =>
    if st.stop then st
    else
      match exfatResolveCluster m d firstCluster streamFlags clusterIndex with
      | none => st
      | some cluster =>
        let lba := exfatClusterLba m cluster
        if lba = u64Max then st
        else
          match parseDirectorySectors d parent lba 0 m.sectorsPerCluster st with
          | (st', false) => st'
          | (st', true) =>
            parseDirectoryClusters left (clusterIndex + 1) st'

def parseExfatDirectoryChain (st : DirParse) : DirParse :=
  if !exfatClusterValid m firstCluster || m.blockSize != 512 then st
  else
    parseDirectoryClusters m d parent firstCluster streamFlags m.exfat.clusterCount 0
      { st with stop := false }

end

/-! ## Looking for three free slots -/

def exfatDirectorySlotFree (sector : Sector) (slot : Nat) : Bool :=
  let type := sector.get (slot * exfatEntrySize)
  type == 0 || type &&& 0x80 == 0

/-- The current run of free slots and where it began. -/
structure SlotRun where
  run : Nat := 0
  cluster : Nat := 0
  clusterIndex : Nat := 0
  sectorIndex : Nat := 0
  slot : Nat := 0
  lba : Nat := 0

/-- A free slot lengthens the run, or begins one at `here`. -/
def SlotRun.grow (r here : SlotRun) : SlotRun :=
  if r.run = 0 then { here with run := 1 } else { r with run := r.run + 1 }

inductive SlotSearch where
  | found (r : SlotRun)
  | exhausted (r : SlotRun)
  | failed (r : SlotRun)

def scanSlots (sector : Sector) (here : SlotRun) (slot : Nat) : Nat → SlotRun → SlotSearch
  | 0, r => .exhausted r
  | left + 1, r =>
    if exfatDirectorySlotFree sector slot then
      let r' := r.grow { here with slot := slot }
      if 3 ≤ r'.run then .found r' else scanSlots sector here (slot + 1) left r'
    else scanSlots sector here (slot + 1) left { r with run := 0 }

def scanSlotSectors (d : Device) (here : SlotRun) (lba sectorIndex : Nat) : Nat → SlotRun →
    SlotSearch
  | 0, r => .exhausted r
  | left + 1, r =>
    match blockRead d (wrap64 (lba + sectorIndex)) with
    | none => .failed r
    | some sector =>
      match scanSlots sector
          { here with sectorIndex := sectorIndex, lba := wrap64 (lba + sectorIndex) } 0 16 r with
      | .exhausted r' => scanSlotSectors d here lba (sectorIndex + 1) left r'
      | stopped => stopped

def scanSlotClusters (m : Mount) (d : Device) (clusterIndex : Nat) : Nat → SlotRun → SlotSearch
  | 0, r => .exhausted r
  | left + 1, r =>
    match exfatResolveCluster m d m.exfat.rootDirCluster 0 clusterIndex with
    | none => .failed r
    | some cluster =>
      let lba := exfatClusterLba m cluster
      if lba = u64Max then .failed r
      else
        match scanSlotSectors d { cluster := cluster, clusterIndex := clusterIndex } lba 0
            m.sectorsPerCluster r with
        | .exhausted r' => scanSlotClusters m d (clusterIndex + 1) left r'
        | stopped => stopped

/-- The search shared by `plan_exfat_root_directory_create` and
    `find_exfat_root_directory_slot_for_test`. -/
def searchRootDirectorySlots (m : Mount) (d : Device) : SlotSearch :=
  if !exfatClusterValid m m.exfat.rootDirCluster || m.blockSize != 512 ||
      m.sectorsPerCluster == 0 then .failed {}
  else scanSlotClusters m d 0 m.exfat.clusterCount {}

/-- `find_exfat_root_directory_slot_for_test`: LBA and byte offset of the run. -/
def findExfatRootDirectorySlot (m : Mount) (d : Device) : Option (Nat × Nat) :=
  match searchRootDirectorySlots m d with
  | .found r => some (r.lba, r.slot * exfatEntrySize)
  | _ => none

end TangPingOS
