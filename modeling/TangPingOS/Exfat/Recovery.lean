import TangPingOS.Exfat.Frames
import TangPingOS.Exfat.Listing
import TangPingOS.Exfat.Reboots

/-! # The directory on disk matches the table

Create, resize, rename and delete each rewrite one set of the root directory and leave its sectors
in order: the slots that a set claims stay in use, and nothing comes behind an end mark. A parser
that reads such a sector therefore meets every set in it, and makes of the set of a writable entry
what the table has.
-/

namespace TangPingOS

open Lib

section Steps

variable {m : Mount} {d₀ : Device} (ground : Ground m d₀)

include ground

theorem DirChange.sectorOk (change : DirChange m d₀ fs fs') (table : Table m d₀ fs cells)
    (sets : Sets fs) (sectors : ∀ lba, RootSector m d₀ lba → SectorOk (fs.dev.data lba)) :
    ∀ lba, RootSector m d₀ lba → SectorOk (fs'.dev.data lba) := by
  intro lba isRoot
  have sets' := sets.change ground table change
  cases change with
  | keep root entries =>
    rw [root lba isRoot]
    exact sectors lba isRoot
  | unlink i e atIndex writable s deleted root entries =>
    obtain ⟨z, -, edit, -⟩ := DirEdit.deleted table sectors sets ⟨atIndex, writable⟩ deleted root
    exact edit.sectorOk sectors isRoot
  | resize i e size atIndex writable fits root entries =>
    have inRoot := (table.entries i e atIndex writable).directory
    have only : OnlySet e.directoryByteOffset (fs.dev.data e.directoryLba) (fs'.dev.data e.directoryLba) := by
      rw [root _ inRoot, if_pos rfl]
      exact onlySet_resized
    obtain ⟨z, -, edit, -⟩ := DirEdit.rewritten table sectors sets sets' ⟨atIndex, writable⟩ entries
      ⟨rfl, rfl, writable⟩ only root
    exact edit.sectorOk sectors isRoot
  | rename i e path name renames root entries =>
    have inRoot := (table.entries i e renames.atIndex renames.writable).directory
    have only : OnlySet e.directoryByteOffset (fs.dev.data e.directoryLba) (fs'.dev.data e.directoryLba) := by
      rw [root _ inRoot, if_pos rfl]
      exact onlySet_renamed
    obtain ⟨z, -, edit, -⟩ := DirEdit.rewritten table sectors sets sets' ⟨renames.atIndex, renames.writable⟩ entries
      ⟨rfl, rfl, renames.writable⟩ only root
    exact edit.sectorOk sectors isRoot

theorem Step.sectorOk (step : Step m d₀ w w') (table : Table m d₀ w.fs w.cells)
    (sets : Sets w.fs) (sectors : ∀ lba, RootSector m d₀ lba → SectorOk (w.fs.dev.data lba)) :
    ∀ lba, RootSector m d₀ lba → SectorOk (w'.fs.dev.data lba) := by
  obtain edit | ⟨c, created⟩ := step.cases ground table
  · exact (edit.dirChange ground table).sectorOk ground table sets sectors
  · obtain ⟨z, edit, -⟩ := DirEdit.created table sectors ground created
    exact fun lba isRoot => edit.sectorOk sectors isRoot

theorem Steps.sectorOk (steps : Steps m d₀ w w') (table : Table m d₀ w.fs w.cells)
    (sets : Sets w.fs) (sectors : ∀ lba, RootSector m d₀ lba → SectorOk (w.fs.dev.data lba)) :
    ∀ lba, RootSector m d₀ lba → SectorOk (w'.fs.dev.data lba) := by
  induction steps with
  | refl => exact sectors
  | tail before last ih =>
    have table' := table.steps ground before
    have sets' := Sets.steps ground before table sets
    exact last.sectorOk ground table' sets' ih

end Steps

/-- The sectors of the directory are in order in every state a run reaches. -/
theorem Mounted.sectorOk (start : Mounted d m fs)
    (sectors : ∀ lba, RootSector m d lba → SectorOk (d.data lba)) (ops : List FileOp) :
    ∀ lba, RootSector m d lba → SectorOk ((runOps m fs ops).dev.data lba) := by
  have ground := start.ground
  obtain ⟨d', views, isFs⟩ := start.done.start ground start.ready
  have table := start.done.table ground views
  have sets := start.done.sets ground views
  have first (lba : Nat) (isRoot : RootSector m d lba) :=
    start.done.sectorOk ground views sectors isRoot
  rw [← isFs] at table sets first
  obtain ⟨cells, steps⟩ := runOps_reaches ground start.ready ops table
  exact Steps.sectorOk ground steps table sets first

theorem SectorOk.taken (ok : SectorOk s) (file : FileSlot s z)
    (enough : 16 ≤ slot + fuel) (ahead : slot ≤ z) : z ∈ (takenSlots s fuel slot).1 := by
  have inside := file.1
  induction fuel generalizing slot with
  | zero => omega
  | succ fuel ih =>
    by_cases here : slot = z
    · subst here
      have notEnd : ¬ s.get (slot * 32) = 0 := by
        rw [file.2]
        decide
      rw [takenSlots, if_neg (by omega), if_neg notEnd, if_pos file.2]
      exact List.mem_cons_self
    have before : slot < z := by omega
    rw [takenSlots, if_neg (by omega)]
    split
    · rename_i ended
      have endedToo := ok.ended slot z before inside ended
      rw [file.2] at endedToo
      exact absurd endedToo (by decide)
    split
    · rename_i earlier
      apply List.mem_cons_of_mem
      apply ih (by omega)
      -- A set that reached as far as `z` would have a secondary there.
      by_contra reaches
      have secondary := ok.inUse slot z ⟨by omega, earlier⟩ before (by unfold secondaries; omega)
      rw [file.2] at secondary
      exact absurd secondary (by decide)
    · exact ih (by omega) before

theorem length_takenSlots (fuel slot : Nat) : (takenSlots s fuel slot).1.length ≤ fuel := by
  induction fuel generalizing slot with
  | zero => exact Nat.le_refl 0
  | succ fuel ih =>
    rw [takenSlots]
    split
    · exact Nat.zero_le _
    split
    · exact Nat.zero_le _
    split
    · exact Nat.succ_le_succ (ih _)
    · exact (ih _).trans (Nat.le_succ fuel)

theorem parseExfatDirectorySector_entries :
    (parseExfatDirectorySector s parent { bitmap := bitmap, entries := [] }).entries =
      (takenSlots s 16 0).1.filterMap (setFile parent s) := by
  have few : ((takenSlots s 16 0).1.filterMap (setFile parent s)).length ≤ maxRootEntries :=
    (List.length_filterMap_le _ _).trans ((length_takenSlots 16 0).trans (by decide))
  rw [parseExfatDirectorySector, (parseSlots_fill s parent 16 0 _).1, fill]
  exact List.take_of_length_le few

/-- The parser makes an entry of a test file's set, with the name, the size and the first cluster that
    the set was written with. -/
theorem SetAt.recovered {s : Sector} {z name first size}
    (set : SetAt s (z * 32) name first size) (inside : z + 3 ≤ 16) (plain : PlainName name) (ok : SectorOk s)
    (parent : Bytes) (bitmap : AllocationBitmap) :
    ∃ r ∈ (parseExfatDirectorySector s parent { bitmap := bitmap, entries := [] }).entries,
      r.name = name ∧ r.size = size ∧ r.firstCluster = first := by
  have short := plain.short
  have whole : copyLimited 64 name = name := List.take_of_length_le (by omega)
  have taken := ok.taken ⟨by omega, set.fileMark⟩ (Nat.le_add_left 16 0) (Nat.zero_le z)
  have room : ¬ (maxRootEntries ≤ ([] : List RootEntry).length ∨ name = []) := by
    rintro (full | empty)
    · exact absurd full (by decide)
    · exact plain.some_ empty
  obtain ⟨r, isFile, shows⟩ : ∃ r, setFile parent s z = some r ∧
      r.name = name ∧ r.size = size ∧ r.firstCluster = first := by
    simp only [setFile, addExfatRootEntry, set.parsed inside plain, if_neg room]
    exact ⟨_, rfl, whole, rfl, rfl⟩
  rw [parseExfatDirectorySector_entries]
  exact ⟨r, List.mem_filterMap.mpr ⟨z, taken, isFile⟩, shows⟩

/-! ## The directory and the table -/

/-- What the directory on disk owes the table: every writable entry has its own 96 bytes, which hold a
    sealed set of three slots, and a parser that reads their sector into an empty table finds the entry. -/
structure DirectoryMatches (fs : Fs) : Prop where
  inside : ∀ i e, fs.Live i e → e.directoryByteOffset + 96 ≤ 512
  apart : ∀ i j e e', i ≠ j → fs.Live i e → fs.Live j e' → e.Apart e'
  marks : ∀ i e, fs.Live i e →
    (fs.dev.data e.directoryLba).get e.directoryByteOffset = 0x85 ∧
    (fs.dev.data e.directoryLba).get (e.directoryByteOffset + 32) = 0xc0 ∧
    (fs.dev.data e.directoryLba).get (e.directoryByteOffset + 64) = 0xc1
  checksum : ∀ i e, fs.Live i e →
    (fs.dev.data e.directoryLba).readLe16 (e.directoryByteOffset + 2) =
      exfatEntrySetChecksum ((fs.dev.data e.directoryLba).slice e.directoryByteOffset 96) 3
  recovered : ∀ i e bitmap, fs.Live i e →
    ∃ r ∈ (parseExfatDirectorySector (fs.dev.data e.directoryLba) rootPath
      { bitmap := bitmap, entries := [] }).entries,
      r.name = e.name ∧ r.size = e.size ∧ r.firstCluster = e.firstCluster

/-- After every sequence of writes, truncates and unlinks the directory on disk matches the table. -/
theorem directory_matches_table {d : Device} {m : Mount} {fs : Fs} (mounted : blockfsMount d = (m, fs))
    (wellFormed : WellFormed m d) (io : IoSucceeds m d)
    (apart : ∀ i j c, rootChain m d i = some c → bitmapChain m d j ≠ some c) (fits : 3 * m.clusterSize < 2 ^ 64)
    (sectors : ∀ lba, RootSector m d lba → SectorOk (d.data lba)) (ops : List FileOp) :
    DirectoryMatches (runOps m fs ops) := by
  cases ready : m.exfat.commit.ready with
  | false =>
    -- Without the commit of the mount no entry is writable.
    have readOnly {i : Nat} {e : RootEntry} (live : (runOps m fs ops).Live i e) : False := by
      rw [runOps_unready ready] at live
      have never := blockfsMount_readOnly mounted ready e (List.mem_of_getElem? live.1)
      rw [live.2] at never
      cases never
    exact ⟨fun _ _ live => (readOnly live).elim, fun _ _ _ _ _ live => (readOnly live).elim,
      fun _ _ live => (readOnly live).elim, fun _ _ live => (readOnly live).elim,
      fun _ _ _ live => (readOnly live).elim⟩
  | true =>
    have start : Mounted d m fs := ⟨mounted, ready, wellFormed, io, apart, fits⟩
    obtain ⟨cells, table, sets⟩ := start.sets ops
    have inOrder := start.sectorOk sectors ops
    have origins := (start.inherits ops).entries
    constructor
    · exact fun i e live => (table.entries i e live.1 live.2).offset
    · exact sets.apart
    · intro i e live
      have set := live.setOn sets
      exact ⟨set.fileMark, set.streamMark, set.nameMark⟩
    · exact fun i e live => (live.setOn sets).checksum
    · intro i e bitmap live
      obtain ⟨z, slot⟩ := live.inSlot table sets
      obtain ⟨path, parsed⟩ := (origins e (List.mem_of_getElem? live.1)).shortName live.2
      have inRoot := (table.entries i e live.1 live.2).directory
      exact slot.set.recovered slot.inside (plainName_of_parsed parsed) (inOrder _ inRoot) rootPath bitmap

/-- A file is created beside `NEW.TXT`, lengthened and deleted, and `NEW.TXT` takes its name. -/
theorem directory_matches_table_plain :
    DirectoryMatches (runOps (blockfsMount plainDevice).1 (blockfsMount plainDevice).2
      [.write [0x2f, 0x41] 0 [1], .write [0x2f, 0x41] 600 [2], .unlink [0x2f, 0x41],
        .truncate [0x2f, 0x41] 7]) := by
  have start := plainDevice_mounted
  exact directory_matches_table start.mounted start.wellFormed start.io start.apart start.fits
    plainDevice_bootable.1.directory.sectors _

set_option maxRecDepth 100000 in
theorem overlapping_directory :
    (blockfsMount overlappingDevice).1.sectorsPerCluster = 1 ∧
    SectorOk (overlappingDevice.data (heapSector (blockfsMount overlappingDevice).1
      (blockfsMount overlappingDevice).1.exfat.rootDirCluster 0)) ∧
    let fs := runOps (blockfsMount overlappingDevice).1 (blockfsMount overlappingDevice).2 [.write [0x2f, 0x41] 0 [1]]
    fs.rootEntries[0]?.any (fun e => e.writable && (fs.dev.data e.directoryLba).readLe16 (e.directoryByteOffset + 2) !=
      exfatEntrySetChecksum ((fs.dev.data e.directoryLba).slice e.directoryByteOffset 96) 3) := by
  decide +kernel

/-- Where the root directory doubles as the bitmap, creating `/A` sets a bit inside the set of `NEW.TXT`. -/
theorem directory_mismatches_overlapping : ∃ d m fs ops, blockfsMount d = (m, fs) ∧ WellFormed m d ∧
    IoSucceeds m d ∧ 3 * m.clusterSize < 2 ^ 64 ∧ (∀ lba, RootSector m d lba → SectorOk (d.data lba)) ∧
    ¬DirectoryMatches (runOps m fs ops) := by
  obtain ⟨-, tested, fits, -⟩ := overlapping_run
  obtain ⟨one, inOrder, broken⟩ := overlapping_directory
  have single : SingleClusters _ overlappingDevice := .of_test tested rfl
  refine ⟨overlappingDevice, _, _, [.write [0x2f, 0x41] 0 [1]], Prod.mk.eta.symm, single.wellFormed, single.io, fits,
    fun lba root => ?_, fun matches_ => ?_⟩
  · rw [single.rootSector one root]
    exact inOrder
  · obtain ⟨e, first, wrong⟩ := (Option.any_eq_true _ _).mp broken
    rw [Bool.and_eq_true, bne_iff_ne] at wrong
    exact wrong.2 (matches_.checksum 0 e ⟨first, wrong.1⟩)

/-- Nothing outside the FAT and the cluster heap is ever written, the boot sector in front of the FAT
    in particular. -/
theorem foreign_sectors_untouched {d : Device} {m : Mount} {fs : Fs} (start : Mounted d m fs)
    (ops : List FileOp) :
    (∀ lba, Foreign m lba → (runOps m fs ops).dev.data lba = d.data lba) ∧
      (0 < m.exfat.fatOffset → (runOps m fs ops).dev.data 0 = d.data 0) := by
  have untouched (lba : Nat) (foreign : Foreign m lba) : (runOps m fs ops).dev.data lba = d.data lba :=
    start.keeps (P := fun fs => fs.dev.data lba = d.data lba)
      (fun _ planned => start.done.foreign start.ground foreign planned)
      (fun step table same => (step.foreign start.ground table foreign).trans same)
  exact ⟨untouched, fun behind => untouched 0 (foreign_boot start.ground.vol behind)⟩

/-- The boot sector. -/
theorem foreign_sectors_untouched_boot :
    (runOps (blockfsMount plainDevice).1 (blockfsMount plainDevice).2
      [.write pathB 0 [1], .unlink pathB]).dev.data 0 = plainDevice.data 0 :=
  (foreign_sectors_untouched plainDevice_mounted _).2 plainDevice_bootable.1.behindBoot

end TangPingOS
