import TangPingOS.Exfat.Cycles
import TangPingOS.Exfat.Missing
import TangPingOS.Exfat.Names

/-! # Creates that fail

The table of root entries is asked for room after the transaction of a create has been written, and a
truncate that renames `NEW.TXT` looks at the capacity afterwards. What has been written then stays.
-/

namespace TangPingOS

open Lib

variable {name : Bytes} {d' : Device} {i : Nat} {e : RootEntry}

/-- The FAT, the bitmap and the root directory are the same, byte for byte. -/
def SameMetadata (m : Mount) (d d' : Device) : Prop :=
  ∀ lba, MapSector m d lba ∨ RootSector m d lba → d'.data lba = d.data lba

theorem SameMetadata.refl (m : Mount) (d : Device) : SameMetadata m d d := fun _ _ => rfl

section Failures

variable {m : Mount} {d₀ : Device} (ground : Ground m d₀) {fs : Fs} {cells : Nat → List Nat}
  (table : Table m d₀ fs cells)

include ground table

theorem SameMetadata.bit_eq (same : SameMetadata m fs.dev d')
    (valid : exfatClusterValid m c) : bitAt d' (place m d₀ c) = bitAt fs.dev (place m d₀ c) := by
  refine bitAt_congr ground valid fun i b j chain within => same _ (.inl (.inr ⟨i, b, j, ?_, within, rfl⟩))
  rw [table.agree.bitmapChain_eq ground.vol]
  exact chain

theorem Planned.changes (planned : Planned m d₀ fs c) (bits : ∀ x, exfatClusterValid m x →
      bitAt d' (place m d₀ x) = bitAt (c.device m d₀ fs.dev) (place m d₀ x)) : ¬SameMetadata m fs.dev d' := by
  intro same
  obtain ⟨b, rest, isClusters⟩ := List.exists_cons_of_ne_nil planned.some_
  have member : b ∈ c.clusters := by rw [isClusters]; exact List.mem_cons_self
  have free := planned.free b member
  obtain ⟨-, -, set⟩ := Creation.views ground table.agree planned.valid (planned.apart table ground)
    (planned.lba ground table.agree)
  have now := same.bit_eq ground table free.valid
  rw [bits b free.valid, set b free.valid, if_pos ⟨b, member, rfl, rfl, rfl⟩, free.clear] at now
  cases now

variable (ready : m.exfat.commit.ready)

include ready

/-- A write that fails after its create has only written data. -/
theorem writeFileData_failed (atIndex : fs.rootEntries[i]? = some e)
    (writable : e.writable) (failed : (writeFileData m fs i e offset data).2 = none) :
    DataOnly m (cells i) fs.dev (writeFileData m fs i e offset data).1.dev := by
  have ok := table.entries i e atIndex writable
  have only : DataOnly m (cells i) fs.dev (writeFrom m e offset data data.length 0 fs.dev).1 :=
    writeFrom_dataOnly (table.volume ground) ok (table.owns.linked i) (.refl m _ _)
  simp only [writeFileData] at failed ⊢
  cases outcome : writeFrom m e offset data data.length 0 fs.dev with
  | mk d done =>
  rw [outcome] at only failed
  have table' := table.data ground only
  cases done with
  | false => exact only
  | true =>
  by_cases grows : e.size < offset + data.length
  · simp only [grows] at failed ⊢
    rw [refreshExfatTestFileSize_eq ground table'.agree ok ready writable] at failed ⊢
    by_cases refused : e.capacity < offset + data.length ∨
        (d.data e.directoryLba).get e.directoryByteOffset ≠ 0x85 ∨
        (d.data e.directoryLba).get (e.directoryByteOffset + 32) ≠ 0xc0
    · simp only [refused]
      exact only
    · simp only [refused] at failed
      cases failed
  · simp only [grows] at failed
    cases failed

variable (sets : Sets fs) {path : Bytes} (absent : findExfatRootEntry fs.rootEntries path = none)

include sets absent

/-- A write that creates leaves the metadata alone where it fails, unless the table is full or the chain
    cannot be followed. -/
theorem blockfsWrite_failed_iff :
    ((blockfsWrite m fs path 0 data).2 = none → SameMetadata m fs.dev (blockfsWrite m fs path 0 data).1.dev) ↔
      ∀ c, planCreation m fs path (exfatTestClusterCountForSize m data.length) = some c →
        fs.rootEntries.length < maxRootEntries ∧ (data ≠ [] → Followable c.clusters) := by
  cases plan : planCreation m fs path (exfatTestClusterCountForSize m data.length) with
  | none =>
    rw [blockfsWrite_absent ground ready table absent, plan]
    exact ⟨fun _ c isPlan => (by cases isPlan), fun _ _ => .refl m fs.dev⟩
  | some c =>
    obtain ⟨planned, len, -⟩ := planCreation_spec ground table.agree plan
    by_cases full : maxRootEntries ≤ fs.rootEntries.length
    · rw [blockfsWrite_absent ground ready table absent, plan]
      simp only [if_pos full]
      constructor
      · intro kept
        exact absurd (kept trivial) (planned.changes ground table fun _ _ => rfl)
      · intro safe
        exact absurd (safe c rfl).1 (Nat.not_lt.mpr full)
    have room := Nat.not_le.mp full
    by_cases nothing : data = []
    · have done : (blockfsWrite m fs path 0 data).2 ≠ none := by
        rw [blockfsWrite_absent ground ready table absent, plan]
        simp [nothing, full, writeFileData, writeFrom]
      constructor
      · intro _ c' isPlan
        exact ⟨room, fun some_ => absurd nothing some_⟩
      · intro _ failed
        exact absurd failed done
    have some_ : data.length ≠ 0 := mt List.length_eq_zero_iff.mp nothing
    constructor
    · intro kept c' isPlan
      obtain rfl := Option.some.inj isPlan
      refine ⟨room, fun _ => ?_⟩
      by_contra broken
      have failed : (blockfsWrite m fs path 0 data).2 = none := by
        apply Option.not_isSome_iff_eq_none.mp
        intro done
        obtain ⟨c', isPlan', -, followable⟩ := blockfsWrite_absent_some ground ready table absent some_ done
        obtain rfl := Option.some.inj (plan.symm.trans isPlan')
        exact broken followable
      refine absurd (kept failed) (planned.changes ground table fun x valid => ?_)
      rw [blockfsWrite_absent ground ready table absent, plan] at failed ⊢
      simp only [if_neg full] at failed ⊢
      have table₁ := table.create ground planned
      have only := writeFileData_failed ground table₁ ready (by simp) rfl failed
      exact table₁.bitAt_data ground only valid
    · intro safe failed
      obtain ⟨d', -, wrote, -⟩ := blockfsWrite_fresh ground ready table sets plan ((safe c rfl).2 nothing) room some_
      rw [wrote] at failed
      cases failed

omit absent in
theorem truncateEntry_eq (atIndex : fs.rootEntries[i]? = some e) (writable : e.writable) (size : Nat) :
    (e.capacity < size → truncateEntry m fs i e size = (fs, false)) ∧
      (size ≤ e.capacity → (truncateEntry m fs i e size).2) := by
  have ok := table.entries i e atIndex writable
  have on := sets.on i e ⟨atIndex, writable⟩
  constructor
  · intro small
    simp [truncateEntry, small]
  · intro fits
    have refreshed := refreshExfatTestFileSize_eq ground table.agree ok ready writable size
    rw [if_neg (by
      rintro (small | mark | mark)
      · omega
      · exact mark on.fileMark
      · exact mark on.streamMark)] at refreshed
    simp [truncateEntry, ok.parent, writable, ok.file, Nat.not_lt.mpr fits, refreshed]

omit ready absent in
/-- The set of a file that has been given another name has changed. -/
theorem Renames.changes (renames : Renames m fs path i e name) :
    ¬SameMetadata m fs.dev (renamedFs fs i e name).dev := by
  intro same
  have ok := table.entries i e renames.atIndex renames.writable
  have live : fs.Live i e := ⟨renames.atIndex, renames.writable⟩
  obtain ⟨z, slot⟩ := live.inSlot table sets
  have inside := slot.inside
  have root : RootSector m fs.dev e.directoryLba := by
    obtain ⟨k, b, j, chain, within, isLba⟩ := ok.directory
    rw [← table.agree.rootChain_eq ground.vol] at chain
    exact ⟨k, b, j, chain, within, isLba⟩
  have kept := same _ (.inr root)
  rw [renamedFs, Device.put_data_self, slot.offset] at kept
  -- one set cannot carry both names
  have before := slot.set
  rw [renames.isNew] at before
  have after := slot.set.rename (by omega) name
  rw [kept] at after
  have isName : name = newTxt := (after.setName inside (plainName_of_parsed renames.parsed)).symm.trans
    (before.setName inside plainName_newTxt)
  have other := absent_entry renames.parsed renames.absent renames.atIndex
  simp [ok.parent, renames.isNew, isName] at other

omit ground table sets in
theorem blockfsTruncate_absent (size : Nat) :
    blockfsTruncate m fs path size =
      if exfatTestClusterCountForSize m size = 0 then (fs, false)
      else match makeMissingFile m fs path (exfatTestClusterCountForSize m size) with
        | (fs', false) => (fs', false)
        | (fs', true) =>
          match findExfatRootEntry fs'.rootEntries path with
          | none => (fs', false)
          | some i =>
            match fs'.rootEntries[i]? with
            | none => (fs', false)
            | some e => truncateEntry m fs' i e size := by
  unfold blockfsTruncate
  rw [ready, if_neg (by decide)]
  generalize findExfatRootEntry fs.rootEntries path = found at absent ⊢
  subst absent
  rfl

omit ground ready sets in
theorem Renames.found (renames : Renames m fs path i e name) :
    findExfatRootEntry (renamedFs fs i e name).rootEntries path = some i := by
  have ok := table.entries i e renames.atIndex renames.writable
  rw [findExfatRootEntry_short renames.parsed, findIdx?_eq_some_iff_firstMatch]
  refine ⟨_, renames.renamed, by simp [ok.parent], fun k x before isX => ?_⟩
  obtain ⟨same, -⟩ | ⟨-, old⟩ := getElem?_set_cases isX
  · omega
  · exact absent_entry renames.parsed absent old

omit sets in
/-- After the rename the truncate goes on with the renamed file. -/
theorem blockfsTruncate_renames (renames : Renames m fs path i e name)
    {size : Nat} (accepted : exfatTestClusterCountForSize m size ≠ 0) :
    blockfsTruncate m fs path size = truncateEntry m (renamedFs fs i e name) i { e with name := name } size := by
  rw [blockfsTruncate_absent ready absent, if_neg accepted, makeMissingFile,
    renameExfatTestFile_ok ground table ready renames]
  simp only [renames.found table absent, renames.renamed]

/-- A truncate that makes a file leaves the metadata alone where it fails, unless it has renamed a
    `NEW.TXT` that is too small or the table is full. -/
theorem blockfsTruncate_failed_iff :
    ((blockfsTruncate m fs path size).2 = false → SameMetadata m fs.dev (blockfsTruncate m fs path size).1.dev) ↔
      (exfatTestClusterCountForSize m size ≠ 0 →
        (∀ i e name, Renames m fs path i e name → size ≤ e.capacity) ∧
        ((∀ i e name, ¬Renames m fs path i e name) →
          ∀ c, planCreation m fs path (exfatTestClusterCountForSize m size) = some c →
            fs.rootEntries.length < maxRootEntries)) := by
  by_cases refused : exfatTestClusterCountForSize m size = 0
  · rw [blockfsTruncate_absent ready absent, if_pos refused]
    exact ⟨fun _ accepted => absurd refused accepted, fun _ _ => .refl m fs.dev⟩
  by_cases renamed : ∃ i e name, Renames m fs path i e name
  · obtain ⟨i, e, name, renames⟩ := renamed
    have step : Step m d₀ ⟨fs, cells⟩ ⟨renamedFs fs i e name, cells⟩ := .rename renames
    obtain ⟨small, fits⟩ := truncateEntry_eq ground (Table.step ground step table) ready
      (sets.step ground step table) renames.renamed renames.writable size
    rw [blockfsTruncate_renames ground table ready absent renames refused]
    constructor
    · intro kept _
      refine ⟨fun i' e' name' renames' => ?_, fun none => absurd renames (none i e name)⟩
      obtain rfl := Option.some.inj (renames.first.symm.trans renames'.first)
      obtain rfl := Option.some.inj (renames.atIndex.symm.trans renames'.atIndex)
      by_contra large
      have failed := small (Nat.not_le.mp large)
      rw [failed] at kept
      exact renames.changes ground table sets (kept rfl)
    · intro safe failed
      rw [fits ((safe refused).1 i e name renames)] at failed
      cases failed
  · have none : ∀ i e name, ¬Renames m fs path i e name := fun i e name renames => renamed ⟨i, e, name, renames⟩
    rw [blockfsTruncate_absent ready absent, if_neg refused, makeMissingFile,
      renameExfatTestFile_refused ready absent none]
    simp only [createExfatTestFileWithClusters_eq ground table.agree ready]
    cases plan : planCreation m fs path (exfatTestClusterCountForSize m size) with
    | none =>
      refine ⟨fun _ _ => ⟨fun i e name renames => absurd renames (none i e name), fun _ c isPlan => ?_⟩,
        fun _ _ => .refl m fs.dev⟩
      cases isPlan
    | some c =>
      obtain ⟨planned, len, isPath⟩ := planCreation_spec ground table.agree plan
      by_cases full : maxRootEntries ≤ fs.rootEntries.length
      · simp only [if_pos full]
        constructor
        · intro kept
          exact absurd (kept trivial) (planned.changes ground table fun _ _ => rfl)
        · intro safe
          exact absurd ((safe refused).2 none c rfl) (Nat.not_lt.mpr full)
      · have room := Nat.not_le.mp full
        have step : Step m d₀ ⟨fs, cells⟩ _ := .create c planned room
        have atIndex : (fs.rootEntries ++ [c.entry m])[fs.rootEntries.length]? = some (c.entry m) := by simp
        have found : findExfatRootEntry (fs.rootEntries ++ [c.entry m]) path = some fs.rootEntries.length :=
          planCreation_found ground table.agree plan rfl rfl
        have fits := planCreation_fits ground table.agree plan
        have done := (truncateEntry_eq ground (Table.step ground step table) ready
          (sets.step ground step table) atIndex rfl size).2 fits
        simp only [if_neg full, found, atIndex]
        constructor
        · intro _ _
          exact ⟨fun i e name renames => absurd renames (none i e name), fun _ _ _ => room⟩
        · intro _ failed
          rw [done] at failed
          cases failed

end Failures

/-- The create of a write is safe to fail: there is room in the table for the file that it would make,
    and the clusters that it would take can be followed. -/
def WriteSafe (m : Mount) (fs : Fs) (path data : Bytes) : Prop :=
  m.exfat.commit.ready → ∀ c,
    planCreation m fs path (exfatTestClusterCountForSize m data.length) = some c →
      fs.rootEntries.length < maxRootEntries ∧ (data ≠ [] → Followable c.clusters)

/-- The create of a truncate is safe to fail: a `NEW.TXT` that it would rename is large enough, and if
    there is none, the table has room for the file that it would make. -/
def TruncateSafe (m : Mount) (fs : Fs) (path : Bytes) (size : Nat) : Prop :=
  m.exfat.commit.ready → exfatTestClusterCountForSize m size ≠ 0 →
    (∀ i e name, Renames m fs path i e name → size ≤ e.capacity) ∧
    ((∀ i e name, ¬Renames m fs path i e name) →
      ∀ c, planCreation m fs path (exfatTestClusterCountForSize m size) = some c →
        fs.rootEntries.length < maxRootEntries)

/-- A call on a missing path that fails leaves the metadata alone exactly if its create is safe to fail. -/
theorem failed_creates_keep_metadata_iff {d : Device} {m : Mount} {fs : Fs} (mounted : blockfsMount d = (m, fs))
    (wellFormed : WellFormed m d) (io : IoSucceeds m d)
    (apart : ∀ i j c, rootChain m d i = some c → bitmapChain m d j ≠ some c) (fits : 3 * m.clusterSize < 2 ^ 64)
    (ops : List FileOp) {path : Bytes} (absent : findExfatRootEntry (runOps m fs ops).rootEntries path = none) :
    (∀ data, ((blockfsWrite m (runOps m fs ops) path 0 data).2 = none →
      SameMetadata m (runOps m fs ops).dev (blockfsWrite m (runOps m fs ops) path 0 data).1.dev) ↔
        WriteSafe m (runOps m fs ops) path data) ∧
    ∀ size, ((blockfsTruncate m (runOps m fs ops) path size).2 = false →
      SameMetadata m (runOps m fs ops).dev (blockfsTruncate m (runOps m fs ops) path size).1.dev) ↔
        TruncateSafe m (runOps m fs ops) path size := by
  cases ready : m.exfat.commit.ready with
  | false =>
    have idle (op : FileOp) : op.run m (runOps m fs ops) = runOps m fs ops := FileOp.run_unready ready op
    have never : ¬m.exfat.commit.ready := by simp [ready]
    refine ⟨fun data => ⟨fun _ isReady => absurd isReady never, fun _ _ => ?_⟩,
      fun size => ⟨fun _ isReady => absurd isReady never, fun _ _ => ?_⟩⟩
    · have same : (blockfsWrite m (runOps m fs ops) path 0 data).1 = runOps m fs ops := idle (.write path 0 data)
      rw [same]
      exact .refl m _
    · have same : (blockfsTruncate m (runOps m fs ops) path size).1 = runOps m fs ops := idle (.truncate path size)
      rw [same]
      exact .refl m _
  | true =>
    have start : Mounted d m fs := ⟨mounted, ready, wellFormed, io, apart, fits⟩
    obtain ⟨cells, table, sets⟩ := start.sets ops
    constructor
    · intro data
      rw [blockfsWrite_failed_iff start.ground table ready sets absent]
      exact ⟨fun safe _ => safe, fun safe => safe ready⟩
    · intro size
      rw [blockfsTruncate_failed_iff start.ground table ready sets absent]
      exact ⟨fun safe _ => safe, fun safe => safe ready⟩

/-- The `NEW.TXT` of the mount is deleted, and another one of one cluster made and emptied. -/
def smallNewTxtFs : Fs :=
  runOps (blockfsMount plainDevice).1 (blockfsMount plainDevice).2
    [.unlink newTxtPath, .truncate newTxtPath 1, .truncate newTxtPath 0]

set_option maxRecDepth 100000 in
theorem smallNewTxtFs_facts :
    findExfatRootEntry smallNewTxtFs.rootEntries pathA = none ∧
      (blockfsTruncate (blockfsMount plainDevice).1 smallNewTxtFs pathA 500).2 ∧
      (blockfsTruncate (blockfsMount plainDevice).1 smallNewTxtFs pathA 600).2 = false ∧
      rootChain (blockfsMount plainDevice).1 smallNewTxtFs.dev 0 = some 2 ∧
      0 < (blockfsMount plainDevice).1.sectorsPerCluster ∧ heapSector (blockfsMount plainDevice).1 2 0 = 2 ∧
      (smallNewTxtFs.dev.data 2).get 98 = 0x4e ∧
      ((blockfsTruncate (blockfsMount plainDevice).1 smallNewTxtFs pathA 600).1.dev.data 2).get 98 = 0x41 := by
  decide +kernel

theorem failed_creates_keep_metadata_small :
    TruncateSafe (blockfsMount plainDevice).1 smallNewTxtFs pathA 500 := by
  obtain ⟨absent, done, -⟩ := smallNewTxtFs_facts
  have start := plainDevice_mounted
  refine ((failed_creates_keep_metadata_iff start.mounted start.wellFormed start.io start.apart start.fits
    [.unlink newTxtPath, .truncate newTxtPath 1, .truncate newTxtPath 0] absent).2 500).mp fun failed => ?_
  rw [show runOps (blockfsMount plainDevice).1 (blockfsMount plainDevice).2
    [.unlink newTxtPath, .truncate newTxtPath 1, .truncate newTxtPath 0] = smallNewTxtFs from rfl, done] at failed
  cases failed

/-- A truncate to 600 bytes renames the small `NEW.TXT` and fails. The name on disk has changed. -/
theorem failed_truncate_renames :
    Mounted plainDevice (blockfsMount plainDevice).1 (blockfsMount plainDevice).2 ∧
      findExfatRootEntry smallNewTxtFs.rootEntries pathA = none ∧
      (blockfsTruncate (blockfsMount plainDevice).1 smallNewTxtFs pathA 600).2 = false ∧
      ¬SameMetadata (blockfsMount plainDevice).1 smallNewTxtFs.dev
        (blockfsTruncate (blockfsMount plainDevice).1 smallNewTxtFs pathA 600).1.dev := by
  obtain ⟨absent, -, failed, chain, some_, sector, before, after⟩ := smallNewTxtFs_facts
  refine ⟨plainDevice_mounted, absent, failed, fun same => ?_⟩
  rw [same 2 (.inr ⟨0, 2, 0, chain, some_, sector.symm⟩), before] at after
  cases after

end TangPingOS
