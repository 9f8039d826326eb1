import TangPingOS.Exfat.Bitmap
import TangPingOS.Exfat.Directory

/-! # File operations of the exFAT test build

Everything behind `TANGPINGOS_TEST_EXFAT_COMMIT`: create, extend, resize, rename
and unlink of root files, and the read, write, truncate and unlink entry points
of the file system. A function that returns `-1` after it has written sectors
keeps those writes, so results carry the device beside the outcome. Pointers to
root entries are indices into the table.
-/

namespace TangPingOS

open Lib

/-! ## Names -/

def exfatTestNameCharValid (c : UInt8) : Bool :=
  (decide (0x41 ≤ c) && decide (c ≤ 0x5a)) || (decide (0x30 ≤ c) && decide (c ≤ 0x39)) ||
    c == 0x5f

/-- The loop of `parse_exfat_test_short_name`; `name` is what has been copied so far. -/
def shortNameFrom : Bytes → Bytes → Nat → Nat → Bool → Option Bytes
  | [], name, baseLen, extLen, seenDot =>
    if baseLen = 0 ∨ (seenDot ∧ extLen = 0) then none else some name
  | c :: rest, name, baseLen, extLen, seenDot =>
    if c = 0x2f then none
    else if 64 ≤ name.length + 1 ∨ 15 ≤ name.length then none
    else if c = 0x2e then
      if seenDot ∨ baseLen = 0 then none else shortNameFrom rest (name ++ [c]) baseLen extLen true
    else if !exfatTestNameCharValid c then none
    else if seenDot then
      if 3 < extLen + 1 then none else shortNameFrom rest (name ++ [c]) baseLen (extLen + 1) seenDot
    else
      if 8 < baseLen + 1 then none else shortNameFrom rest (name ++ [c]) (baseLen + 1) extLen seenDot

def parseExfatTestShortName (path : Bytes) : Option Bytes :=
  match path with
  | 0x2f :: rest => shortNameFrom rest [] 0 0 false
  | _ => none

/-- Index of the last `/` after the first character, or zero. -/
def lastSlash (path : Bytes) : Nat :=
  path.zipIdx.foldl (fun slash ci => if 1 ≤ ci.2 ∧ ci.1 = 0x2f then ci.2 else slash) 0

/-- How `find_exfat_root_entry` takes a path apart. -/
def splitPath (path : Bytes) : Option (Bytes × Bytes) :=
  if path.head? ≠ some 0x2f then none
  else
    let slash := lastSlash path
    if slash = 0 then
      let name := copyLimited 64 (path.drop 1)
      if name = [] then none else some (rootPath, name)
    else if 64 ≤ slash + 1 then none
    else
      let name := copyLimited 64 (path.drop (slash + 1))
      if name = [] then none else some (path.take slash, name)

def findExfatRootEntry (entries : List RootEntry) (path : Bytes) : Option Nat :=
  match splitPath path with
  | none => none
  | some (parent, name) => entries.findIdx? fun e => e.parent == parent && e.name == name

/-- `find_exfat_test_file_entry`: the first writable root file. -/
def findExfatTestFileEntry (entries : List RootEntry) : Option Nat :=
  entries.findIdx? fun e => e.writable && e.parent == rootPath && !e.isDir

/-! ## Directory entries -/

/-- The sector image `refresh_exfat_test_file_size_for_test` writes. -/
def resizedEntrySet (s : Sector) (off size : Nat) : Sector :=
  sealEntrySet ((s.write (off + 40) (le64 size)).write (off + 56) (le64 size)) off

variable (m : Mount)

/-- `refresh_exfat_test_file_size_for_test`: the entry with its new size, if it succeeds. -/
def refreshExfatTestFileSize (d : Device) (e : RootEntry) (size : Nat) : Device × Option RootEntry :=
  if !m.exfat.commit.ready || !e.writable ||
      decide (512 < e.directoryByteOffset + exfatCreatePlanEntryBytes) then (d, none)
  else if e.capacity < size then (d, none)
  else
    match blockRead d e.directoryLba with
    | none => (d, none)
    | some s =>
      if s.get e.directoryByteOffset ≠ 0x85 ∨ s.get (e.directoryByteOffset + 32) ≠ 0xc0 then (d, none)
      else
        match writeExfatSectorChecked m d e.directoryLba
            (resizedEntrySet s e.directoryByteOffset size) with
        | (d', false) => (d', none)
        | (d', true) => (d', some { e with size := size })

/-- The sector image `rename_exfat_test_file_for_test` writes. -/
def renamedEntrySet (s : Sector) (off : Nat) (name : Bytes) : Sector :=
  sealEntrySet
    (((s.set (off + 35) (UInt8.ofNat name.length)).write (off + 36)
      (le16 (exfatNameHash name))).write (off + 64) (exfatNameEntry name)) off

/-- `rename_exfat_test_file_for_test`: give the still empty `NEW.TXT` another name. -/
def renameExfatTestFile (fs : Fs) (path : Bytes) : Fs × Bool :=
  match parseExfatTestShortName path with
  | none => (fs, false)
  | some name =>
    if !m.exfat.commit.ready ||
        decide (512 < m.exfat.transaction.directoryByteOffset + exfatCreatePlanEntryBytes) then
      (fs, false)
    else if (findExfatRootEntry fs.rootEntries path).isSome then (fs, true)
    else
      match findExfatTestFileEntry fs.rootEntries with
      | none => (fs, false)
      | some i =>
        match fs.rootEntries[i]? with
        | none => (fs, false)
        | some e =>
          if e.size ≠ 0 ∨ e.name ≠ newTxt ∨
              512 < e.directoryByteOffset + exfatCreatePlanEntryBytes then (fs, false)
          else
            match blockRead fs.dev e.directoryLba with
            | none => (fs, false)
            | some s =>
              let off := e.directoryByteOffset
              if s.get off ≠ 0x85 ∨ s.get (off + 32) ≠ 0xc0 ∨ s.get (off + 64) ≠ 0xc1 then (fs, false)
              else
                match writeExfatSectorChecked m fs.dev e.directoryLba (renamedEntrySet s off name) with
                | (d', false) => ({ fs with dev := d' }, false)
                | (d', true) =>
                  ({ rootEntries := fs.rootEntries.set i { e with name := copyLimited 64 name }
                     dev := d' }, true)

/-! ## Clusters -/

/-- The sectors of a cluster from `sectorIndex` on, `left` of them, written with zeros. -/
def zeroSectors (lba sectorIndex : Nat) : Nat → Device → Device × Bool
  | 0, d => (d, true)
  | left + 1, d =>
    match writeExfatSectorChecked m d (wrap64 (lba + sectorIndex)) Buf.zero with
    | (d', false) => (d', false)
    | (d', true) => zeroSectors lba (sectorIndex + 1) left d'

/-- `zero_exfat_cluster_for_test`. -/
def zeroExfatCluster (d : Device) (cluster : Nat) : Device × Bool :=
  let lba := exfatClusterLba m cluster
  if lba = u64Max ∨ m.sectorsPerCluster = 0 then (d, false)
  else zeroSectors m lba 0 m.sectorsPerCluster d

/-- The zeroing loops of create and extend, which stop at the first failure. -/
def zeroExfatClusters : List Nat → Device → Device × Bool
  | [], d => (d, true)
  | cluster :: rest, d =>
    match zeroExfatCluster m d cluster with
    | (d', false) => (d', false)
    | (d', true) => zeroExfatClusters rest d'

/-- `exfat_test_cluster_count_for_size`; zero means the size is refused. -/
def exfatTestClusterCountForSize (size : Nat) : Nat :=
  if m.clusterSize = 0 then 0
  else if size = 0 then exfatAllocPlanClusterCount
  else if u64Max - (m.clusterSize - 1) < size then 0
  else
    let requested := (size + m.clusterSize - 1) / m.clusterSize
    if requested = 0 ∨ exfatAllocPlanClusterCount < requested then 0 else requested

/-- The loop of `find_exfat_free_cluster_run_for_test`; `run` holds the free clusters in a
    row that end just before `cluster`. -/
def freeRunFrom (d : Device) (requested cluster : Nat) : Nat → List Nat →
    Option (List Nat)
  | 0, _ => none
  | left + 1, run => do
    let used ← readExfatBitmapBit m d cluster
    if !used && exfatReadFatEntry m d cluster == some 0 then
      if requested ≤ (run ++ [cluster]).length then some (run ++ [cluster])
      else freeRunFrom d requested (cluster + 1) left (run ++ [cluster])
    else freeRunFrom d requested (cluster + 1) left []

def findExfatFreeClusterRun (d : Device) (requested : Nat) : Option (List Nat) :=
  if requested = 0 ∨ exfatAllocPlanClusterCount < requested then none
  else freeRunFrom m d requested 2 (m.clusterEnd - 2) []

/-- `collect_exfat_test_cluster_chain_for_test`, at most three links. -/
def collectChainFrom (d : Device) : Nat → Nat → List Nat → Option (List Nat)
  | 0, _, clusters => some clusters
  | left + 1, cluster, clusters => do
    let next ← exfatReadFatEntry m d cluster
    if 0xfffffff8 ≤ next then some (clusters ++ [cluster])
    else if !exfatClusterValid m next then none
    else collectChainFrom d left next (clusters ++ [cluster])

def collectExfatTestClusterChain (d : Device) (e : RootEntry) : Option (List Nat) :=
  if !e.writable || !exfatClusterValid m e.firstCluster then none
  else collectChainFrom m d exfatAllocPlanClusterCount e.firstCluster []

/-- Stage used bits and FAT links for a new chain, its last cluster ending it. -/
def stageChain (d : Device) : List Nat → Transaction → Option Transaction
  | [], tx => some tx
  | cluster :: rest, tx => do
    let tx' ← setExfatBitmapBitInTransaction m d tx cluster
    let tx'' ← writeExfatFatEntryInTransaction m d tx' cluster (rest.headD fatEnd)
    stageChain d rest tx''

/-- `release_exfat_test_cluster_chain_in_transaction`. -/
def stageRelease (d : Device) : List Nat → Transaction → Option Transaction
  | [], tx => some tx
  | cluster :: rest, tx => do
    let tx' ← clearExfatBitmapBitInTransaction m d tx cluster
    let tx'' ← writeExfatFatEntryInTransaction m d tx' cluster 0
    stageRelease d rest tx''

/-! ## Create, extend, unlink -/

/-- The sectors a create commits: the chain's bits and links, then the directory set. -/
def stageCreate (d : Device) (clusters : List Nat) (dirLba dirOffset : Nat)
    (entries : Buf 96) : Option Transaction :=
  (stageChain m d clusters []).bind fun tx =>
    tx.mutate m d dirLba (.bytes dirOffset (entries.slice 0 96))

/-- `create_exfat_test_file_with_clusters_for_test`. -/
def createExfatTestFileWithClusters (fs : Fs) (path : Bytes) (requested : Nat) : Fs × Bool :=
  if !m.exfat.commit.ready || requested == 0 ||
      decide (exfatAllocPlanClusterCount < requested) then (fs, false)
  else
    match parseExfatTestShortName path with
    | none => (fs, false)
    | some name =>
      if (findExfatRootEntry fs.rootEntries path).isSome then (fs, false)
      else
        match findExfatFreeClusterRun m fs.dev requested with
        | none => (fs, false)
        | some clusters =>
          match findExfatRootDirectorySlot m fs.dev with
          | none => (fs, false)
          | some (dirLba, dirOffset) =>
            let capacity := wrap64 (m.sectorsPerCluster * 512 * requested)
            if 512 < dirOffset + exfatCreatePlanEntryBytes ∨ capacity = 0 then (fs, false)
            else
              match zeroExfatClusters m clusters fs.dev with
              | (d, false) => ({ fs with dev := d }, false)
              | (d, true) =>
                match stageCreate m d clusters dirLba dirOffset
                    (encodeExfatFileEntries name (clusters.headD 0) 0) with
                | none => ({ fs with dev := d }, false)
                | some tx =>
                  match tx.commit m d with
                  | (d', false) => ({ fs with dev := d' }, false)
                  | (d', true) =>
                    match addExfatRootEntry fs.rootEntries rootPath name 0 (clusters.headD 0) 0x20 0 with
                    | none => ({ fs with dev := d' }, false)
                    | some e =>
                      ({ rootEntries := fs.rootEntries ++
                          [{ e with
                             capacity := capacity
                             directoryLba := dirLba
                             directoryByteOffset := dirOffset
                             writable := true }]
                         dev := d' }, true)

/-- Stage the link from the old last cluster and the new clusters behind it. -/
def stageExtend (d : Device) (last : Nat) (newClusters : List Nat) : Option Transaction :=
  (writeExfatFatEntryInTransaction m d [] last (newClusters.headD 0)).bind fun tx =>
    stageChain m d newClusters tx

/-- `extend_exfat_test_file_for_test` on the entry at index `i`. -/
def extendExfatTestFile (fs : Fs) (i : Nat) (e : RootEntry) (required : Nat) : Fs × Bool :=
  if !e.writable || required == 0 || decide (exfatAllocPlanClusterCount < required) then (fs, false)
  else
    match collectExfatTestClusterChain m fs.dev e with
    | none => (fs, false)
    | some current =>
      if current.length = 0 ∨ required < current.length then (fs, false)
      else if current.length = required then (fs, true)
      else
        match findExfatFreeClusterRun m fs.dev (required - current.length) with
        | none => (fs, false)
        | some newClusters =>
          match zeroExfatClusters m newClusters fs.dev with
          | (d, false) => ({ fs with dev := d }, false)
          | (d, true) =>
            match stageExtend m d (current.getLastD 0) newClusters with
            | none => ({ fs with dev := d }, false)
            | some tx =>
              match tx.commit m d with
              | (d', false) => ({ fs with dev := d' }, false)
              | (d', true) =>
                let newCapacity := wrap64 (m.sectorsPerCluster * 512 * required)
                if newCapacity = 0 then ({ fs with dev := d' }, false)
                else
                  ({ rootEntries := fs.rootEntries.set i { e with capacity := newCapacity }
                     dev := d' }, true)

def stageUnlink (d : Device) (e : RootEntry) (clusters : List Nat) : Option Transaction :=
  if !e.writable || decide (512 < e.directoryByteOffset + exfatCreatePlanEntryBytes) then none
  else do
    let tx ← Transaction.mutate m d [] e.directoryLba (.deleteEntries e.directoryByteOffset 3)
    if clusters.length = 0 ∨ exfatAllocPlanClusterCount < clusters.length then none
    else stageRelease m d clusters tx

/-- `unlink_exfat_test_file_for_test`. The freed clusters are wiped after the commit, and a
    failure to wipe them is only logged. -/
def unlinkExfatTestFile (fs : Fs) (path : Bytes) : Fs × Bool :=
  if !m.exfat.commit.ready || (parseExfatTestShortName path).isNone then (fs, false)
  else
    match findExfatRootEntry fs.rootEntries path with
    | none => (fs, false)
    | some i =>
      match fs.rootEntries[i]? with
      | none => (fs, false)
      | some e =>
        if !e.writable || e.isDir || e.parent != rootPath then (fs, false)
        else
          match collectExfatTestClusterChain m fs.dev e with
          | none => (fs, false)
          | some clusters =>
            match stageUnlink m fs.dev e clusters with
            | none => (fs, false)
            | some tx =>
              match tx.commit m fs.dev with
              | (d, false) => ({ fs with dev := d }, false)
              | (d, true) =>
                ({ rootEntries := fs.rootEntries.set i {}
                   dev := (zeroExfatClusters m clusters d).1 }, true)

/-! ## Reading -/

/-- Where a byte position of a file lies: its sector, if the chain reaches it. -/
def exfatFileSector (d : Device) (e : RootEntry) (filePos : Nat) : Option Nat :=
  (exfatResolveCluster m d e.firstCluster e.streamFlags (filePos / m.clusterSize)).bind
    fun cluster =>
      let lba := exfatClusterLba m cluster
      let sectorIndex := filePos % m.clusterSize / 512
      if lba = u64Max ∨ m.sectorsPerCluster ≤ sectorIndex then none
      else some (wrap64 (lba + sectorIndex))

/-- The copy loop of `read_exfat_root_file`. A round copies a byte or more. -/
def readFrom (d : Device) (e : RootEntry) (offset bufferLen : Nat) : Nat → Bytes →
    Option Bytes
  | 0, out => some out
  | fuel + 1, out =>
    if out.length < bufferLen ∧ offset + out.length < e.size then
      let filePos := offset + out.length
      let sectorOffset := filePos % m.clusterSize % 512
      (exfatFileSector m d e filePos).bind fun lba =>
        (blockRead d lba).bind fun s =>
          let toCopy := min (min (bufferLen - out.length) (512 - sectorOffset)) (e.size - filePos)
          readFrom d e offset bufferLen fuel (out ++ s.slice sectorOffset toCopy)
    else some out

/-- `read_exfat_root_file`; `none` is the result `(uint64_t)-1`. -/
def readExfatRootFile (d : Device) (e : RootEntry) (offset bufferLen : Nat) : Option Bytes :=
  if e.isDir || !exfatClusterValid m e.firstCluster || m.clusterSize == 0 then none
  else if e.size ≤ offset ∨ bufferLen = 0 then some []
  else readFrom m d e offset bufferLen bufferLen []

/-! ## Writing -/

/-- The copy loop of `blockfs_write_new_file_for_test`, `written` bytes done. -/
def writeFrom (e : RootEntry) (offset : Nat) (data : Bytes) : Nat → Nat → Device →
    Device × Bool
  | 0, _, d => (d, true)
  | fuel + 1, written, d =>
    if written < data.length then
      let filePos := offset + written
      let sectorOffset := filePos % m.clusterSize % 512
      let toCopy := min (data.length - written) (512 - sectorOffset)
      match exfatFileSector m d e filePos with
      | none => (d, false)
      | some lba =>
        match blockRead d lba with
        | none => (d, false)
        | some s =>
          match writeExfatSectorChecked m d lba
              (s.write sectorOffset ((data.drop written).take toCopy)) with
          | (d', false) => (d', false)
          | (d', true) => writeFrom e offset data fuel (written + toCopy) d'
    else (d, true)

/-- The data and size part of `blockfs_write_new_file_for_test`, capacity being enough. -/
def writeFileData (fs : Fs) (i : Nat) (e : RootEntry) (offset : Nat) (data : Bytes) : Fs × Option Nat :=
  match writeFrom m e offset data data.length 0 fs.dev with
  | (d, false) => ({ fs with dev := d }, none)
  | (d, true) =>
    if e.size < offset + data.length then
      match refreshExfatTestFileSize m d e (offset + data.length) with
      | (d', none) => ({ fs with dev := d' }, none)
      | (d', some e') =>
        ({ rootEntries := fs.rootEntries.set i e', dev := d' }, some data.length)
    else ({ fs with dev := d }, some data.length)

/-- `blockfs_write_new_file_for_test` on the entry at index `i`. -/
def blockfsWriteNewFile (fs : Fs) (i : Nat) (e : RootEntry) (offset : Nat) (data : Bytes) : Fs × Option Nat :=
  if !m.exfat.commit.ready || !e.writable || e.parent != rootPath || m.clusterSize == 0 ||
      decide (u64Max - data.length < offset) then (fs, none)
  else if e.capacity < offset + data.length then
    let required := exfatTestClusterCountForSize m (offset + data.length)
    if required = 0 then (fs, none)
    else
      match extendExfatTestFile m fs i e required with
      | (fs', false) => (fs', none)
      | (fs', true) =>
        match fs'.rootEntries[i]? with
        | none => (fs', none)
        | some e' =>
          if e'.capacity < offset + data.length then (fs', none)
          else writeFileData m fs' i e' offset data
  else writeFileData m fs i e offset data

def blockfsWrite (fs : Fs) (path : Bytes) (offset : Nat) (data : Bytes) : Fs × Option Nat :=
  match findExfatRootEntry fs.rootEntries path with
  | some i =>
    match fs.rootEntries[i]? with
    | none => (fs, none)
    | some e => blockfsWriteNewFile m fs i e offset data
  | none =>
    if offset ≠ 0 then (fs, none)
    else
      let requested := exfatTestClusterCountForSize m data.length
      if requested = 0 then (fs, none)
      else
        match createExfatTestFileWithClusters m fs path requested with
        | (fs', false) => (fs', none)
        | (fs', true) =>
          match findExfatRootEntry fs'.rootEntries path with
          | none => (fs', none)
          | some i =>
            match fs'.rootEntries[i]? with
            | none => (fs', none)
            | some e => blockfsWriteNewFile m fs' i e offset data

/-- The part of `blockfs_truncate` after the entry is there. -/
def truncateEntry (fs : Fs) (i : Nat) (e : RootEntry) (size : Nat) : Fs × Bool :=
  if e.parent != rootPath || !e.writable || decide (e.capacity < size) || e.isDir then (fs, false)
  else
    match refreshExfatTestFileSize m fs.dev e size with
    | (d, none) => ({ fs with dev := d }, false)
    | (d, some e') => ({ rootEntries := fs.rootEntries.set i e', dev := d }, true)

/-- How `blockfs_truncate` makes a missing file: by renaming `NEW.TXT`, else by a create. -/
def makeMissingFile (fs : Fs) (path : Bytes) (requested : Nat) : Fs × Bool :=
  match renameExfatTestFile m fs path with
  | (fs', true) => (fs', true)
  | (fs', false) => createExfatTestFileWithClusters m fs' path requested

def blockfsTruncate (fs : Fs) (path : Bytes) (size : Nat) : Fs × Bool :=
  if !m.exfat.commit.ready then (fs, false)
  else
    match findExfatRootEntry fs.rootEntries path with
    | some i =>
      match fs.rootEntries[i]? with
      | none => (fs, false)
      | some e => truncateEntry m fs i e size
    | none =>
      let requested := exfatTestClusterCountForSize m size
      if requested = 0 then (fs, false)
      else
        match makeMissingFile m fs path requested with
        | (fs', false) => (fs', false)
        | (fs', true) =>
          match findExfatRootEntry fs'.rootEntries path with
          | none => (fs', false)
          | some i =>
            match fs'.rootEntries[i]? with
            | none => (fs', false)
            | some e => truncateEntry m fs' i e size

def blockfsUnlink (fs : Fs) (path : Bytes) : Fs × Bool :=
  unlinkExfatTestFile m fs path

end TangPingOS
