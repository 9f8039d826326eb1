import TangPingOS.Exfat.Files

/-! # Mounting an exFAT volume in the test build

`blockfs_mount` parses the boot sector and the directories, scans the allocation
bitmap, plans the creation of `NEW.TXT`, tries the plan on copies of the three
sectors it touches and then commits it. A plan that is given up half way keeps the
fields it had filled in.
-/

namespace TangPingOS

open Lib

/-! ## Boot sector and directories -/

/-- `"EXFAT   "`. -/
def exfatSignature : Bytes := ['E', 'X', 'F', 'A', 'T', ' ', ' ', ' '].map Char.toUInt8

def parseExfatBootSector (sector : Sector) : ExfatBootInfo :=
  if sector.slice 3 8 ≠ exfatSignature ∨ sector.get 510 ≠ 0x55 ∨ sector.get 511 ≠ 0xaa then {}
  else
    { present := true
      fatOffset := sector.readLe32 80
      fatLength := sector.readLe32 84
      clusterHeapOffset := sector.readLe32 88
      clusterCount := sector.readLe32 92
      rootDirCluster := sector.readLe32 96
      bytesPerSectorShift := (sector.get 108).toNat
      sectorsPerClusterShift := (sector.get 109).toNat }

section

variable (m : Mount)

/-- The loop of `parse_exfat_root_directory` over the table, which grows while it runs and
    never past `maxRootEntries`. -/
def parseSubdirectories (d : Device) : Nat → Nat → DirParse → DirParse
  | 0, _, st => st
  | fuel + 1, i, st =>
    match st.entries[i]? with
    | none => st
    | some e =>
      if !e.isDir || !exfatClusterValid m e.firstCluster then
        parseSubdirectories d fuel (i + 1) st
      else
        match joinChildPath e.parent e.name with
        | none => parseSubdirectories d fuel (i + 1) st
        | some path =>
          parseSubdirectories d fuel (i + 1)
            (parseExfatDirectoryChain m d path e.firstCluster e.streamFlags st)

/-! ## The plan -/

def planExfatRootDirectoryCreate (d : Device) : Mount :=
  let planned (r : SlotRun) (ready : Bool) : Mount :=
    { m with exfat := { m.exfat with
        createPlan :=
          { foundEntries := r.run
            directoryCluster := r.cluster
            directoryClusterIndex := r.clusterIndex
            sectorIndex := r.sectorIndex
            firstSlot := r.slot
            entryLba := r.lba
            ready := ready }
        transaction := {}
        patched := {}
        commit := { supported := true } } }
  match searchRootDirectorySlots m d with
  | .found r => planned r true
  | .exhausted r => planned r false
  | .failed r => planned r false

/-- `encode_exfat_create_plan_entries`. The checksum skips the bytes that store it, so it is
    the same before and after it is written. -/
def encodeExfatCreatePlanEntries : Mount :=
  let clusterSize := wrap64 (m.sectorsPerCluster * m.blockSize)
  let plan := m.exfat.createPlan
  if !plan.ready || !m.exfat.allocationPlan.ready || clusterSize == 0 then
    { m with exfat := { m.exfat with createPlan := { plan with
        fileSize := 0, firstCluster := 0, nameHash := 0, entrySetChecksum := 0
        entries := Buf.zero, entriesReady := false } } }
  else
    let first := m.exfat.allocationPlan.clusters.headD 0
    let size := wrap64 (clusterSize * exfatAllocPlanClusterCount)
    let entries := encodeExfatFileEntries newTxt first size
    { m with exfat := { m.exfat with createPlan := { plan with
        fileSize := size
        firstCluster := first
        nameHash := exfatNameHash newTxt
        entrySetChecksum := exfatEntrySetChecksum (entries.slice 0 96) 3
        entries := entries
        entriesReady := true } } }

/-- Mask of the planned clusters whose bit lies in bitmap byte `byteIndex`. The others are
    passed over. -/
def plannedMask (byteIndex : Nat) (clusters : List Nat) : UInt8 :=
  clusters.foldl
    (fun mask cluster =>
      if (cluster - 2) / 8 = byteIndex then mask ||| UInt8.ofNat (2 ^ ((cluster - 2) % 8)) else mask)
    0

/-- The FAT loop of `plan_exfat_create_transaction`: all words must lie in one sector. -/
def planFatWords (sector : Sector) : List Nat → TransactionPlan → TransactionPlan × Bool
  | [], t => (t, true)
  | cluster :: rest, t =>
    let offset := cluster * 4 % 512
    if m.exfat.fatOffset + cluster * 4 / 512 ≠ t.fatLba ∨ 512 < offset + 4 then (t, false)
    else
      planFatWords sector rest
        { t with
          fatOffsets := t.fatOffsets ++ [offset]
          fatOldValues := t.fatOldValues ++ [sector.readLe32 offset]
          fatNewValues := t.fatNewValues ++ [rest.headD fatEnd] }

/-- The planning part of `plan_exfat_create_transaction`. -/
def planTransaction (d : Device) : TransactionPlan :=
  let clusters := m.exfat.allocationPlan.clusters
  if !m.exfat.createPlan.entriesReady || !m.exfat.allocationPlan.ready ||
      !m.exfat.allocationBitmap.present || m.blockSize != 512 || m.sectorsPerCluster == 0 ||
      m.clusterSize == 0 then {}
  else
    let firstByte := (clusters.headD 0 - 2) / 8
    let offsetInCluster := firstByte % m.clusterSize
    match exfatResolveCluster m d m.exfat.allocationBitmap.cluster 0 (firstByte / m.clusterSize) with
    | none => {}
    | some bitmapCluster =>
      let clusterLba := exfatClusterLba m bitmapCluster
      let bitmapLba := wrap64 (clusterLba + offsetInCluster / 512)
      if clusterLba = u64Max then {}
      else
        match blockRead d bitmapLba with
        | none => {}
        | some bitmapSector =>
          let old := bitmapSector.get (offsetInCluster % 512)
          let mask := plannedMask firstByte clusters
          let t : TransactionPlan :=
            { bitmapLba := bitmapLba
              bitmapByteOffset := offsetInCluster % 512
              bitmapOldValue := old
              bitmapMask := mask
              bitmapNewValue := old ||| mask
              fatLba := m.exfat.fatOffset + clusters.headD 0 * 4 / 512 }
          match blockRead d t.fatLba with
          | none => t
          | some fatSector =>
            match planFatWords m fatSector clusters t with
            | (t', false) => t'
            | (t', true) =>
              { t' with
                directoryLba := m.exfat.createPlan.entryLba
                directoryByteOffset := m.exfat.createPlan.firstSlot * exfatEntrySize
                directoryByteCount := exfatCreatePlanEntryBytes
                writeCount := 3
                ready := true }

/-! ## Applying and checking the plan -/

/-- The bitmap byte of `apply_exfat_create_transaction_to_sectors`. -/
def TransactionPlan.patchBitmap (t : TransactionPlan) (s : Sector) : Sector :=
  s.set t.bitmapByteOffset t.bitmapNewValue

def patchFatWords : List (Nat × Nat) → Sector → Option Sector
  | [], s => some s
  | (offset, value) :: rest, s =>
    if 512 < offset + 4 then none else patchFatWords rest (s.write offset (le32 value))

def TransactionPlan.patchDirectory (t : TransactionPlan) (entries : Buf 96) (s : Sector) : Sector :=
  s.write t.directoryByteOffset (entries.slice 0 96)

/-- The name check of `exfat_patched_directory_name_matches`. -/
def exfatPatchedDirectoryNameMatches (s : Sector) (off : Nat) : Bool :=
  newTxt.zipIdx.all fun ci => s.get (off + 2 + ci.2 * 2) == ci.1 && s.get (off + 3 + ci.2 * 2) == 0

/-- `verify_patched_exfat_create_transaction`: the `patched_*` fields it leaves, and its
    verdict. -/
def verifyPatchedExfatCreateTransaction (e : ExfatBootInfo) (bitmapSector fatSector dirSector : Sector) :
    PatchedTransaction × Bool :=
  let t := e.transaction
  let off := t.directoryByteOffset
  if 512 < off + exfatCreatePlanEntryBytes then (e.patched, false)
  else
    let p := { e.patched with bitmapValue := bitmapSector.get t.bitmapByteOffset }
    if t.fatOffsets.any fun offset => decide (512 < offset + 4) then (p, false)
    else
      let p := { p with fatValues := t.fatOffsets.map fun offset => fatSector.readLe32 offset }
      if dirSector.get off ≠ 0x85 ∨ dirSector.get (off + 32) ≠ 0xc0 ∨ dirSector.get (off + 64) ≠ 0xc1 then
        (p, false)
      else
        let p := { p with
          directoryChecksum := dirSector.readLe16 (off + 2)
          directoryFirstCluster := dirSector.readLe32 (off + 52)
          directoryFileSize := dirSector.readLe64 (off + 56)
          directoryNameLength := (dirSector.get (off + 35)).toNat
          directoryNameMatches := exfatPatchedDirectoryNameMatches dirSector (off + 64) }
        (p, p.bitmapValue == t.bitmapNewValue &&
          p.fatValues.getD 0 0 == e.allocationPlan.clusters.getD 1 0 &&
          p.fatValues.getD 1 0 == e.allocationPlan.clusters.getD 2 0 &&
          p.fatValues.getD 2 0 == fatEnd &&
          p.directoryChecksum == e.createPlan.entrySetChecksum &&
          p.directoryFirstCluster == e.createPlan.firstCluster &&
          p.directoryFileSize == e.createPlan.fileSize &&
          p.directoryNameLength == newTxt.length && p.directoryNameMatches)

/-- `dry_run_exfat_create_transaction`: patch copies of the sectors, write nothing. -/
def dryRunExfatCreateTransaction (d : Device) : PatchedTransaction :=
  let t := m.exfat.transaction
  if !t.ready || decide (512 < t.directoryByteOffset + exfatCreatePlanEntryBytes) then m.exfat.patched
  else
    match blockRead d t.bitmapLba, blockRead d t.fatLba, blockRead d t.directoryLba with
    | some bitmapSector, some fatSector, some dirSector =>
      match patchFatWords (t.fatOffsets.zip t.fatNewValues) fatSector with
      | none => m.exfat.patched
      | some fatSector' =>
        match verifyPatchedExfatCreateTransaction m.exfat (t.patchBitmap bitmapSector) fatSector'
            (t.patchDirectory m.exfat.createPlan.entries dirSector) with
        | (p, false) => p
        | (p, true) => { p with ready := true }
    | _, _, _ => m.exfat.patched

/-- `exfat_sector_transaction_get_for_test` of the three sectors of the plan, in order. -/
def stagePlannedSectors (d : Device) : Option Transaction :=
  let t := m.exfat.transaction
  (Transaction.get m d [] t.bitmapLba).bind fun tx =>
    (tx.get m d t.fatLba).bind fun tx' => tx'.get m d t.directoryLba

/-- `apply_exfat_create_transaction_to_sectors` on the staged sectors, where two of the three
    pointers may name one image. -/
def applyPlanToTransaction (tx : Transaction) : Option Transaction :=
  let t := m.exfat.transaction
  if !t.ready || decide (512 < t.directoryByteOffset + exfatCreatePlanEntryBytes) then none
  else
    let tx := tx.store t.bitmapLba (t.patchBitmap (tx.sector t.bitmapLba))
    (patchFatWords (t.fatOffsets.zip t.fatNewValues) (tx.sector t.fatLba)).map fun fatSector =>
      let tx := tx.store t.fatLba fatSector
      tx.store t.directoryLba
        (t.patchDirectory m.exfat.createPlan.entries (tx.sector t.directoryLba))

/-- The end of `commit_exfat_create_transaction_for_test`: enter `NEW.TXT` in the table and bring
    its size on disk down to zero. -/
def enterNewFile (entries : List RootEntry) (d : Device) : Fs :=
  match addExfatRootEntry entries rootPath newTxt 0 m.exfat.createPlan.firstCluster 0x20 0 with
  | none => { rootEntries := entries, dev := d }
  | some e =>
    let e := { e with
      capacity := m.exfat.createPlan.fileSize
      directoryLba := m.exfat.transaction.directoryLba
      directoryByteOffset := m.exfat.transaction.directoryByteOffset
      writable := true }
    match refreshExfatTestFileSize m d e 0 with
    | (d', none) => { rootEntries := entries ++ [e], dev := d' }
    | (d', some e') => { rootEntries := entries ++ [e'], dev := d' }

/-- `commit_exfat_create_transaction_for_test`. -/
def commitExfatCreateTransaction (fs : Fs) : Mount × Fs :=
  let t := m.exfat.transaction
  let withCommit (p : PatchedTransaction) (c : Commit) : Mount :=
    { m with exfat := { m.exfat with patched := p, commit := c } }
  let attempted := { m.exfat.commit with attempted := true }
  let staged :=
    if !m.exfat.patched.ready then none
    else (stagePlannedSectors m fs.dev).bind (applyPlanToTransaction m)
  match staged with
  | none => (withCommit m.exfat.patched attempted, fs)
  | some tx =>
    match tx.commit m fs.dev with
    | (d, false) => (withCommit m.exfat.patched attempted, { fs with dev := d })
    | (d, true) =>
      let counted := { attempted with writeCount := tx.length }
      match verifyPatchedExfatCreateTransaction m.exfat (tx.sector t.bitmapLba) (tx.sector t.fatLba)
          (tx.sector t.directoryLba) with
      | (p, false) => (withCommit p counted, { fs with dev := d })
      | (p, true) =>
        let m' := withCommit p { counted with verified := true, ready := true }
        (m', enterNewFile m' fs.rootEntries d)

/-- `plan_exfat_create_transaction`: plan, dry run, commit. -/
def planExfatCreateTransaction (fs : Fs) : Mount × Fs :=
  let m := { m with exfat := { m.exfat with transaction := planTransaction m fs.dev } }
  if !m.exfat.transaction.ready then (m, fs)
  else
    let m := { m with exfat := { m.exfat with patched := dryRunExfatCreateTransaction m fs.dev } }
    commitExfatCreateTransaction m fs

/-! ## Mounting -/

/-- What `parse_exfat_root_directory` has parsed and planned before it writes anything. -/
def parseExfatVolume (d : Device) : Mount × List RootEntry :=
  let st := parseExfatDirectoryChain m d rootPath m.exfat.rootDirCluster 0
    { bitmap := m.exfat.allocationBitmap, entries := [] }
  let st := parseSubdirectories m d maxRootEntries 0 st
  let m := { m with exfat := { m.exfat with allocationBitmap := st.bitmap } }
  let m := parseExfatAllocationBitmap m d
  (encodeExfatCreatePlanEntries (planExfatRootDirectoryCreate m d), st.entries)

def parseExfatRootDirectory (d : Device) : Mount × Fs :=
  match parseExfatVolume m d with
  | (m, entries) => planExfatCreateTransaction m { rootEntries := entries, dev := d }

end

/-- `blockfs_mount` of a device with 512-byte blocks, as far as exFAT goes. -/
def blockfsMount (d : Device) : Mount × Fs :=
  match blockRead d 0 with
  | none => ({ blockSize := 512 }, { rootEntries := [], dev := d })
  | some sector =>
    let m : Mount := { blockSize := 512, exfat := parseExfatBootSector sector }
    if m.exfat.present then parseExfatRootDirectory m d
    else (m, { rootEntries := [], dev := d })

end TangPingOS
