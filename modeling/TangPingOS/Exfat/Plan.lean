import TangPingOS.EntryTable
import TangPingOS.Exfat.Mount
import TangPingOS.Exfat.Scan

/-! # The plan of a mount

What the mount has parsed, planned and staged when its commit goes through: the
entries it found are read-only, the plan names free clusters, a bitmap byte, FAT
words and directory slots, and the commit writes exactly these.
-/

namespace TangPingOS

open Lib

variable {name parent : Bytes} {d : Device} {st : DirParse} {fs fs' : Fs} {m m' mb m₀ m₄ : Mount}
  {tx tx' : Transaction}

/-! ## Parsed entries -/

def ReadOnly (entries : List RootEntry) : Prop := ∀ e ∈ entries, e.writable = false

/-- What parsing adds to the table: read-only entries with a name, of some directories. -/
def Adds (inDir : Bytes → Prop) (entries entries' : List RootEntry) : Prop :=
  ∃ new, entries' = entries ++ new ∧ ∀ e ∈ new, e.writable = false ∧ inDir e.parent ∧ e.name ≠ []

namespace Adds

variable {inDir : Bytes → Prop} {es es' es'' : List RootEntry}

theorem refl : Adds inDir es es := ⟨[], by simp, by simp⟩

theorem trans (first : Adds inDir es es') (next : Adds inDir es' es'') : Adds inDir es es'' := by
  obtain ⟨new, rfl, good⟩ := first
  obtain ⟨more, rfl, good'⟩ := next
  refine ⟨new ++ more, List.append_assoc _ _ _, fun e member => ?_⟩
  obtain here | later := List.mem_append.mp member
  · exact good e here
  · exact good' e later

theorem weaken (adds : Adds inDir es es') (imp : ∀ p, inDir p → inDir' p) : Adds inDir' es es' := by
  obtain ⟨new, isNew, good⟩ := adds
  exact ⟨new, isNew, fun e member => ⟨(good e member).1, imp _ (good e member).2.1, (good e member).2.2⟩⟩

theorem readOnly (adds : Adds inDir [] es) : ReadOnly es := by
  obtain ⟨new, rfl, good⟩ := adds
  exact fun e member => (good e member).1

end Adds

theorem adds_addExfatRootEntry
    (added : addExfatRootEntry entries parent name size first attributes flags = some e) :
    Adds (· = copyLimited 64 parent) entries (entries ++ [e]) := by
  unfold addExfatRootEntry at added
  split at added
  · cases added
  · rename_i accepted
    rw [Option.some.injEq] at added
    subst added
    refine ⟨_, rfl, fun e member => ?_⟩
    obtain rfl := List.mem_singleton.mp member
    refine ⟨rfl, rfl, fun empty => ?_⟩
    obtain none | none := List.take_eq_nil_iff.mp empty
    · cases none
    · exact accepted (.inr none)

section Parse

variable {P : List RootEntry → Prop} (kept : KeptBy parent P)

include kept

theorem parseSlots_keeps (fuel slot : Nat) (holds : P st.entries) :
    P (parseSlots sector parent fuel slot st).entries := by
  induction fuel generalizing slot st with
  | zero => exact holds
  | succ fuel ih =>
    simp only [parseSlots]
    split
    · exact holds
    split
    · exact holds
    split
    · exact ih _ holds
    split
    · exact ih _ holds
    apply ih
    split
    · exact holds
    · rename_i added
      exact kept holds added

theorem parseDirectorySectors_keeps (d : Device) (lba k left : Nat) (holds : P st.entries) :
    P (parseDirectorySectors d parent lba k left st).1.entries := by
  induction left generalizing k st with
  | zero => exact holds
  | succ left ih =>
    simp only [parseDirectorySectors]
    split
    · exact holds
    split
    · exact holds
    · exact ih (k + 1) (parseSlots_keeps kept 16 0 holds)

theorem parseDirectoryClusters_keeps (first flags left i : Nat)
    (holds : P st.entries) : P (parseDirectoryClusters m d parent first flags left i st).entries := by
  induction left generalizing i st with
  | zero => exact holds
  | succ left ih =>
    simp only [parseDirectoryClusters]
    split
    · exact holds
    split
    · exact holds
    rename_i cluster _
    split
    · exact holds
    have sectors := parseDirectorySectors_keeps kept d (exfatClusterLba m cluster) 0 m.sectorsPerCluster holds
    split
    · rename_i outcome
      rw [outcome] at sectors
      exact sectors
    · rename_i outcome
      rw [outcome] at sectors
      exact ih _ sectors

theorem parseExfatDirectoryChain_keeps
    (holds : P st.entries) : P (parseExfatDirectoryChain m d parent first flags st).entries := by
  unfold parseExfatDirectoryChain
  split
  · exact holds
  · exact parseDirectoryClusters_keeps kept first flags _ 0 holds

end Parse

theorem parseExfatDirectoryChain_adds (parent : Bytes) (m : Mount) (d : Device) (first flags : Nat)
    (st : DirParse) :
    Adds (· = copyLimited 64 parent) st.entries
      (parseExfatDirectoryChain m d parent first flags st).entries :=
  parseExfatDirectoryChain_keeps (fun holds added => holds.trans (adds_addExfatRootEntry added))
    .refl

theorem joinChildPath_length (joined : joinChildPath parent name = some path) :
    2 ≤ path.length ∧ path.length ≤ 63 := by
  have slash : rootPath.length = 1 := rfl
  unfold joinChildPath at joined
  split at joined
  · cases joined
  rename_i some_
  have pos : 0 < name.length := List.length_pos_iff.mpr fun empty => some_ (by simp [empty])
  split at joined
  · split at joined
    · cases joined
    · cases joined
      rw [List.length_append]
      omega
  split at joined
  · cases joined
  split at joined
  · cases joined
  · cases joined
    rw [List.length_append, List.length_append]
    omega

/-- The path of a subdirectory is longer than that of the root. -/
theorem joinChildPath_ne_root (joined : joinChildPath parent name = some path) :
    copyLimited 64 path ≠ rootPath := by
  obtain ⟨two, -⟩ := joinChildPath_length joined
  intro isRoot
  have lengths := congrArg List.length isRoot
  rw [copyLimited, List.length_take] at lengths
  have slash : rootPath.length = 1 := rfl
  omega

theorem parseSubdirectories_adds (m : Mount) (d : Device) (fuel i : Nat) (st : DirParse) :
    Adds (· ≠ rootPath) st.entries (parseSubdirectories m d fuel i st).entries := by
  induction fuel generalizing i st with
  | zero => exact .refl
  | succ fuel ih =>
    simp only [parseSubdirectories]
    split
    · exact .refl
    split
    · exact ih _ _
    split
    · exact ih _ _
    · rename_i path joined
      refine .trans ?_ (ih _ _)
      apply (parseExfatDirectoryChain_adds path m d _ _ st).weaken
      rintro _ rfl
      exact joinChildPath_ne_root joined

theorem parseExfatVolume_readOnly (m : Mount) (d : Device) : ReadOnly (parseExfatVolume m d).2 := by
  have root := parseExfatDirectoryChain_adds rootPath m d m.exfat.rootDirCluster 0
    { bitmap := m.exfat.allocationBitmap, entries := [] }
  have children := parseSubdirectories_adds m d maxRootEntries 0 (parseExfatDirectoryChain m d rootPath
    m.exfat.rootDirCluster 0 { bitmap := m.exfat.allocationBitmap, entries := [] })
  have all := (root.weaken fun _ _ => trivial).trans (children.weaken fun _ _ => trivial)
  exact all.readOnly

/-! ## The plan -/

theorem layout_parseExfatAllocationBitmap : (parseExfatAllocationBitmap m d).layout = m.layout := by
  simp only [parseExfatAllocationBitmap]
  split
  · rfl
  split
  · rfl
  · rfl

theorem planExfatRootDirectoryCreate_keeps :
    (planExfatRootDirectoryCreate m d).layout = m.layout ∧
      (planExfatRootDirectoryCreate m d).exfat.allocationPlan = m.exfat.allocationPlan ∧
      (planExfatRootDirectoryCreate m d).exfat.commit.ready = false ∧
      (planExfatRootDirectoryCreate m d).exfat.patched.ready = false := by
  unfold planExfatRootDirectoryCreate
  split <;> exact ⟨rfl, rfl, rfl, rfl⟩

theorem encodeExfatCreatePlanEntries_keeps (m : Mount) :
    (encodeExfatCreatePlanEntries m).layout = m.layout ∧
      (encodeExfatCreatePlanEntries m).exfat.allocationPlan = m.exfat.allocationPlan ∧
      (encodeExfatCreatePlanEntries m).exfat.commit = m.exfat.commit ∧
      (encodeExfatCreatePlanEntries m).exfat.patched = m.exfat.patched ∧
      (encodeExfatCreatePlanEntries m).exfat.createPlan.entryLba = m.exfat.createPlan.entryLba ∧
      (encodeExfatCreatePlanEntries m).exfat.createPlan.firstSlot = m.exfat.createPlan.firstSlot := by
  simp only [encodeExfatCreatePlanEntries]
  split <;> exact ⟨rfl, rfl, rfl, rfl, rfl, rfl⟩

/-- What the mount has parsed and planned when its plan is complete. -/
structure PlanMade (m : Mount) (d : Device) : Prop where
  blockSize : m.blockSize = 512
  sized : m.clusterSize ≠ 0
  scan : ∃ st, scanBitmapClusters m d m.exfat.clusterCount 0 m.exfat.allocationBitmap.size {} = some st ∧
    m.exfat.allocationPlan.clusters = st.plan ∧ 3 ≤ st.plan.length
  slot : ∃ r, searchRootDirectorySlots m d = .found r ∧ m.exfat.createPlan.entryLba = r.lba ∧
    m.exfat.createPlan.firstSlot = r.slot
  firstCluster : m.exfat.createPlan.firstCluster = m.exfat.allocationPlan.clusters.headD 0
  fileSize : m.exfat.createPlan.fileSize = wrap64 (m.clusterSize * 3)
  entries : m.exfat.createPlan.entries =
    encodeExfatFileEntries newTxt (m.exfat.allocationPlan.clusters.headD 0) (wrap64 (m.clusterSize * 3))

theorem parseExfatAllocationBitmap_ready (ready : (parseExfatAllocationBitmap m d).exfat.allocationPlan.ready) :
    ∃ st, scanBitmapClusters m d m.exfat.clusterCount 0 m.exfat.allocationBitmap.size {} = some st ∧
      (parseExfatAllocationBitmap m d).exfat.allocationPlan.clusters = st.plan ∧ 3 ≤ st.plan.length := by
  simp only [parseExfatAllocationBitmap] at ready ⊢
  split at ready
  · cases ready
  rename_i checks
  split at ready
  · cases ready
  rename_i st scanned
  refine ⟨st, scanned, ?_, of_decide_eq_true ready⟩
  rw [if_neg checks]

theorem planExfatRootDirectoryCreate_ready (ready : (planExfatRootDirectoryCreate m d).exfat.createPlan.ready) :
    ∃ r, searchRootDirectorySlots m d = .found r ∧
      (planExfatRootDirectoryCreate m d).exfat.createPlan.entryLba = r.lba ∧
      (planExfatRootDirectoryCreate m d).exfat.createPlan.firstSlot = r.slot := by
  simp only [planExfatRootDirectoryCreate] at ready ⊢
  cases found : searchRootDirectorySlots m d with
  | found r => exact ⟨r, rfl, rfl, rfl⟩
  | exhausted r =>
    rw [found] at ready
    cases ready
  | failed r =>
    rw [found] at ready
    cases ready

theorem encodeExfatCreatePlanEntries_ready (size : m.blockSize = 512)
    (ready : (encodeExfatCreatePlanEntries m).exfat.createPlan.entriesReady) :
    m.exfat.createPlan.ready ∧ m.exfat.allocationPlan.ready ∧ m.clusterSize ≠ 0 ∧
      (encodeExfatCreatePlanEntries m).exfat.createPlan.firstCluster =
        m.exfat.allocationPlan.clusters.headD 0 ∧
      (encodeExfatCreatePlanEntries m).exfat.createPlan.fileSize = wrap64 (m.clusterSize * 3) ∧
      (encodeExfatCreatePlanEntries m).exfat.createPlan.entries =
        encodeExfatFileEntries newTxt (m.exfat.allocationPlan.clusters.headD 0)
          (wrap64 (m.clusterSize * 3)) := by
  simp only [encodeExfatCreatePlanEntries, size] at ready ⊢
  split at ready
  · cases ready
  rename_i checks
  rw [if_neg checks]
  simp only [Bool.or_eq_true, not_or, Bool.not_eq_true, Bool.not_eq_false', beq_iff_eq] at checks
  exact ⟨checks.1.1, checks.1.2, checks.2, rfl, rfl, rfl⟩

theorem parseExfatVolume_plan (size : m₀.blockSize = 512)
    (ready : (parseExfatVolume m₀ d).1.exfat.createPlan.entriesReady) :
    PlanMade (parseExfatVolume m₀ d).1 d := by
  simp only [parseExfatVolume] at ready ⊢
  generalize isParsed : ({ m₀ with exfat := { m₀.exfat with allocationBitmap := _ } } : Mount) = m₁
    at ready ⊢
  have size₁ : m₁.blockSize = 512 := by rw [← isParsed, size]
  generalize isScanned : parseExfatAllocationBitmap m₁ d = m₂ at ready ⊢
  generalize isSlotted : planExfatRootDirectoryCreate m₂ d = m₃ at ready ⊢
  have same₂ := isScanned ▸ layout_parseExfatAllocationBitmap
  obtain ⟨same₃, samePlan₃, -⟩ := isSlotted ▸ planExfatRootDirectoryCreate_keeps
  obtain ⟨same₄, samePlan, -, -, sameLba, sameSlot⟩ := encodeExfatCreatePlanEntries_keeps m₃
  have size₃ : m₃.blockSize = 512 := (congrArg Mount.blockSize (same₃.trans same₂)).trans size₁
  obtain ⟨slotReady, planReady, sized, first, fileSize, entries⟩ :=
    encodeExfatCreatePlanEntries_ready size₃ ready
  obtain ⟨r, found, isLba, isSlot⟩ := planExfatRootDirectoryCreate_ready (isSlotted ▸ slotReady)
  rw [isSlotted] at isLba isSlot
  obtain ⟨st, scanned, clusters, long⟩ := parseExfatAllocationBitmap_ready (m := m₁) (d := d)
    (isScanned ▸ samePlan₃ ▸ planReady)
  rw [isScanned] at clusters
  have same := same₄.trans same₃
  have sizes := clusterSize_congr same₄
  exact
    { blockSize := (congrArg Mount.blockSize same₄).trans size₃
      sized := by rw [sizes]; exact sized
      scan := ⟨st, (scan_congr (same.trans same₂)).trans scanned,
        by rw [samePlan, samePlan₃, clusters], long⟩
      slot := ⟨r, (slots_congr same).trans found, sameLba.trans isLba, sameSlot.trans isSlot⟩
      firstCluster := by rw [first, samePlan]
      fileSize := by rw [fileSize, sizes]
      entries := by rw [entries, samePlan, sizes] }

theorem PlanMade.congr (made : PlanMade m d) (same : m'.layout = m.layout)
    (samePlan : m'.exfat.allocationPlan = m.exfat.allocationPlan)
    (sameCreate : m'.exfat.createPlan = m.exfat.createPlan) : PlanMade m' d := by
  have sizes := clusterSize_congr same
  obtain ⟨st, scanned, clusters, long⟩ := made.scan
  obtain ⟨r, found, isLba, isSlot⟩ := made.slot
  exact
    { blockSize := (congrArg Mount.blockSize same).trans made.blockSize
      sized := by rw [sizes]; exact made.sized
      scan := ⟨st, (scan_congr same).trans scanned, by rw [samePlan, clusters], long⟩
      slot := ⟨r, (slots_congr same).trans found, by rw [sameCreate, isLba],
        by rw [sameCreate, isSlot]⟩
      firstCluster := by rw [sameCreate, samePlan, made.firstCluster]
      fileSize := by rw [sameCreate, sizes, made.fileSize]
      entries := by rw [sameCreate, samePlan, sizes, made.entries] }

theorem ready_planFatWords (t : TransactionPlan) : (planFatWords m s cs t).1.ready = t.ready := by
  induction cs generalizing t with
  | nil => rfl
  | cons c rest ih =>
    simp only [planFatWords]
    split
    · rfl
    · exact ih _

theorem planFatWords_ready
    (paired : t.fatOffsets.length = t.fatNewValues.length) (planned : planFatWords m s cs t = (t', true)) :
    (∀ c ∈ cs, fatSector m c = t.fatLba) ∧
      t'.fatOffsets.zip t'.fatNewValues =
        t.fatOffsets.zip t.fatNewValues ++ (linkWords cs).map (fun e => (e.1 * 4 % 512, e.2)) ∧
      t'.fatLba = t.fatLba ∧ t'.bitmapLba = t.bitmapLba ∧
      t'.bitmapByteOffset = t.bitmapByteOffset ∧ t'.bitmapNewValue = t.bitmapNewValue := by
  induction cs generalizing t with
  | nil =>
    obtain ⟨rfl, _⟩ := planned
    simp [linkWords]
  | cons c rest ih =>
    simp only [planFatWords] at planned
    split at planned
    · cases planned
    rename_i inSector
    simp only [not_or, not_not] at inSector
    obtain ⟨same, words, fat, bitmap, offset, value⟩ := ih (by simp [paired]) planned
    refine ⟨?_, ?_, fat, bitmap, offset, value⟩
    · intro b member
      rcases List.mem_cons.mp member with rfl | later
      · exact inSector.1
      · exact same b later
    · rw [words, List.zip_append paired, List.append_assoc]
      rfl

/-- A complete plan: the bitmap byte of the first cluster, the FAT words of all three and the
    directory slots found. -/
structure TransactionMade (m : Mount) (d : Device) (t : TransactionPlan) : Prop where
  entriesReady : m.exfat.createPlan.entriesReady
  bitmap : ∃ b, bitmapChain m d ((m.exfat.allocationPlan.clusters.headD 0 - 2) / 8 / m.clusterSize) =
      some b ∧
    t.bitmapLba = wrap64 (exfatClusterLba m b +
      (m.exfat.allocationPlan.clusters.headD 0 - 2) / 8 % m.clusterSize / 512)
  bitmapOffset : t.bitmapByteOffset =
    (m.exfat.allocationPlan.clusters.headD 0 - 2) / 8 % m.clusterSize % 512
  bitmapValue : t.bitmapNewValue = (d.data t.bitmapLba).get t.bitmapByteOffset |||
    plannedMask ((m.exfat.allocationPlan.clusters.headD 0 - 2) / 8) m.exfat.allocationPlan.clusters
  fat : ∀ c ∈ m.exfat.allocationPlan.clusters, fatSector m c = t.fatLba
  words : t.fatOffsets.zip t.fatNewValues =
    (linkWords m.exfat.allocationPlan.clusters).map fun e => (e.1 * 4 % 512, e.2)
  directory : t.directoryLba = m.exfat.createPlan.entryLba
  directoryOffset : t.directoryByteOffset = m.exfat.createPlan.firstSlot * 32

theorem planTransaction_ready (ready : (planTransaction m d).ready) :
    TransactionMade m d (planTransaction m d) := by
  generalize isPlan : planTransaction m d = t at ready ⊢
  simp only [planTransaction] at isPlan
  split at isPlan
  · subst isPlan
    cases ready
  rename_i checks
  split at isPlan
  · subst isPlan
    cases ready
  rename_i b resolved
  split at isPlan
  · subst isPlan
    cases ready
  split at isPlan
  · subst isPlan
    cases ready
  rename_i bitmapSector readBitmap
  split at isPlan
  · subst isPlan
    cases ready
  split at isPlan
  · rename_i t' planned
    have never := congrArg (fun outcome => outcome.1.ready) planned
    simp only [ready_planFatWords, isPlan, ready] at never
    cases never
  · rename_i t' planned
    obtain ⟨same, words, fat, bitmap, offset, value⟩ := planFatWords_ready rfl planned
    subst isPlan
    simp only [Bool.or_eq_true, not_or, Bool.not_eq_true, Bool.not_eq_false'] at checks
    have isImage := (blockRead_eq_some.mp readBitmap).2
    exact
      { entriesReady := checks.1.1.1.1.1
        bitmap := ⟨b, resolved, bitmap⟩
        bitmapOffset := offset
        bitmapValue := by
          simp only [bitmap, offset, value, isImage]
        fat := fun c member => (same c member).trans fat.symm
        words := words
        directory := rfl
        directoryOffset := rfl }

theorem TransactionMade.congr (made : TransactionMade m d t) (same : m'.layout = m.layout)
    (samePlan : m'.exfat.allocationPlan = m.exfat.allocationPlan)
    (sameCreate : m'.exfat.createPlan = m.exfat.createPlan) : TransactionMade m' d t := by
  obtain ⟨b, chain, lba⟩ := made.bitmap
  have sizes := clusterSize_congr same
  exact
    { entriesReady := by rw [sameCreate, made.entriesReady]
      bitmap := ⟨b, by rw [bitmapChain_congr same, samePlan, sizes, chain],
        by rw [exfatClusterLba_congr same, samePlan, sizes, lba]⟩
      bitmapOffset := by rw [samePlan, sizes, made.bitmapOffset]
      bitmapValue := by rw [samePlan, made.bitmapValue]
      fat := fun c member => (fatSector_congr same).trans (made.fat c (samePlan ▸ member))
      words := by rw [samePlan, made.words]
      directory := by rw [sameCreate, made.directory]
      directoryOffset := by rw [sameCreate, made.directoryOffset] }

/-! ## The commit -/

def planDevice (t : TransactionPlan) (entries : Buf 96) (d : Device) : Option Device :=
  let d₁ := d.put t.bitmapLba (t.patchBitmap (d.data t.bitmapLba))
  (patchFatWords (t.fatOffsets.zip t.fatNewValues) (d₁.data t.fatLba)).map fun fatSector =>
    let d₂ := d₁.put t.fatLba fatSector
    d₂.put t.directoryLba (t.patchDirectory entries (d₂.data t.directoryLba))

theorem applyPlan_over
    (staged : stagePlannedSectors m d = some tx) (applied : applyPlanToTransaction m tx = some tx') :
    Transaction.Staged d tx' ∧ m.exfat.transaction.directoryByteOffset + exfatCreatePlanEntryBytes ≤ 512 ∧
      planDevice m.exfat.transaction m.exfat.createPlan.entries d = some (Transaction.view d tx') ∧
      m.exfat.transaction.bitmapLba ∈ tx'.lbas ∧ m.exfat.transaction.fatLba ∈ tx'.lbas ∧
      m.exfat.transaction.directoryLba ∈ tx'.lbas := by
  obtain ⟨tx₁, got₁, staged⟩ := Option.bind_eq_some_iff.mp staged
  obtain ⟨tx₂, got₂, got₃⟩ := Option.bind_eq_some_iff.mp staged
  obtain ⟨ok₁, shown₁, listed₁, _⟩ := Transaction.get_some Transaction.staged_nil got₁
  obtain ⟨ok₂, shown₂, listed₂, kept₂⟩ := Transaction.get_some ok₁ got₂
  obtain ⟨ok₃, shown₃, listed₃, kept₃⟩ := Transaction.get_some ok₂ got₃
  have shown : Transaction.view d tx = d := by
    rw [shown₃, shown₂, shown₁, Transaction.view_nil]
  have bitmapListed := (kept₃ _).mpr (.inr ((kept₂ _).mpr (.inr listed₁)))
  have fatListed := (kept₃ _).mpr (.inr listed₂)
  simp only [applyPlanToTransaction] at applied
  split at applied
  · cases applied
  rename_i checks
  simp only [Bool.or_eq_true, not_or, Bool.not_eq_true, Bool.not_eq_false', decide_eq_true_eq] at checks
  obtain ⟨fatImage, patched, isStored⟩ := Option.map_eq_some_iff.mp applied
  -- Each image is stored over what the transaction shows so far.
  rw [Transaction.sector_eq d bitmapListed, shown] at patched isStored
  have bitmapShown := Transaction.view_store (d := d)
    (m.exfat.transaction.patchBitmap (d.data m.exfat.transaction.bitmapLba)) bitmapListed
  rw [shown] at bitmapShown
  rw [← Transaction.lbas_store] at fatListed listed₃
  rw [Transaction.sector_eq d fatListed, bitmapShown] at patched
  have fatShown := Transaction.view_store (d := d) fatImage fatListed
  rw [bitmapShown] at fatShown
  rw [← Transaction.lbas_store] at listed₃
  rw [Transaction.sector_eq d listed₃] at isStored
  refine ⟨isStored ▸ ((ok₃.store _ _).store _ _).store _ _, Nat.not_lt.mp checks.2, ?_, ?_⟩
  · rw [← isStored, Transaction.view_store _ listed₃, fatShown]
    simp [planDevice, patched]
  · rw [← isStored, Transaction.lbas_store]
    refine ⟨?_, ?_, listed₃⟩
    · rw [Transaction.lbas_store, Transaction.lbas_store]
      exact bitmapListed
    · rw [Transaction.lbas_store]
      exact fatListed

/-- The outcome of a commit that went through, for the record `mb` before it. -/
theorem commitExfatCreateTransaction_ready (committed : commitExfatCreateTransaction mb fs = (m, fs'))
    (before : mb.exfat.commit.ready = false) (ready : m.exfat.commit.ready) :
    (∃ p c, m = { mb with exfat := { mb.exfat with patched := p, commit := c } }) ∧
      ∃ tx tx' d, stagePlannedSectors mb fs.dev = some tx ∧ applyPlanToTransaction mb tx = some tx' ∧
        tx'.commit mb fs.dev = (d, true) ∧ fs' = enterNewFile m fs.rootEntries d := by
  simp only [commitExfatCreateTransaction] at committed
  split at committed
  · obtain ⟨rfl, rfl⟩ := Prod.mk.inj committed
    exact absurd (ready.symm.trans before) (by decide)
  rename_i tx' staged
  split at staged
  · cases staged
  obtain ⟨tx, gotAll, applied⟩ := Option.bind_eq_some_iff.mp staged
  split at committed
  · obtain ⟨rfl, rfl⟩ := Prod.mk.inj committed
    exact absurd (ready.symm.trans before) (by decide)
  rename_i d written
  split at committed
  · obtain ⟨rfl, rfl⟩ := Prod.mk.inj committed
    exact absurd (ready.symm.trans before) (by decide)
  · obtain ⟨rfl, rfl⟩ := Prod.mk.inj committed
    exact ⟨⟨_, _, rfl⟩, tx, tx', d, gotAll, applied, written, rfl⟩

/-! ## A commit that is not ready -/

/-- The verdict of the verification is about the sectors and the plan. -/
theorem verify_patched :
    (verifyPatchedExfatCreateTransaction { e with patched := p } b f s).2 =
      (verifyPatchedExfatCreateTransaction e b f s).2 := by
  unfold verifyPatchedExfatCreateTransaction
  dsimp only
  split
  · rfl
  split
  · rfl
  split
  · rfl
  · rfl

theorem ready_verify : (verifyPatchedExfatCreateTransaction e b f s).1.ready = e.patched.ready := by
  unfold verifyPatchedExfatCreateTransaction
  dsimp only
  split
  · rfl
  split
  · rfl
  split
  · rfl
  · rfl

/-- A dry run that ends well has verified the three patched sectors. -/
theorem dryRun_ready (before : m.exfat.patched.ready = false) (ready : (dryRunExfatCreateTransaction m d).ready) :
    ∃ fatImage, patchFatWords (m.exfat.transaction.fatOffsets.zip m.exfat.transaction.fatNewValues)
        (d.data m.exfat.transaction.fatLba) = some fatImage ∧
      (verifyPatchedExfatCreateTransaction m.exfat
        (m.exfat.transaction.patchBitmap (d.data m.exfat.transaction.bitmapLba)) fatImage
        (m.exfat.transaction.patchDirectory m.exfat.createPlan.entries
          (d.data m.exfat.transaction.directoryLba))).2 := by
  have never {p : PatchedTransaction} (same : m.exfat.patched = p) (isReady : p.ready) : False := by
    rw [← same, before] at isReady
    cases isReady
  unfold dryRunExfatCreateTransaction at ready
  dsimp only at ready
  split at ready
  · exact (never rfl ready).elim
  split at ready
  · rename_i bitmapSector fatSector dirSector readBitmap readFat readDir
    rw [(blockRead_eq_some.mp readBitmap).2, (blockRead_eq_some.mp readFat).2,
      (blockRead_eq_some.mp readDir).2]
    split at ready
    · exact (never rfl ready).elim
    rename_i fatImage patched
    refine ⟨fatImage, patched, ?_⟩
    split at ready
    · rename_i p verified
      have same := congrArg (fun outcome => outcome.1.ready) verified
      simp only [ready_verify, before, ready] at same
      cases same
    · rename_i p verified
      rw [verified]
  · exact (never rfl ready).elim

/-- The sectors of the plan, once it is carried out, if they are three. -/
theorem planDevice_sectors (planned : planDevice t entries d = some d') (bitmapFat : t.bitmapLba ≠ t.fatLba)
    (bitmapDir : t.bitmapLba ≠ t.directoryLba) (fatDir : t.fatLba ≠ t.directoryLba) :
    d'.data t.bitmapLba = t.patchBitmap (d.data t.bitmapLba) ∧
      patchFatWords (t.fatOffsets.zip t.fatNewValues) (d.data t.fatLba) = some (d'.data t.fatLba) ∧
      d'.data t.directoryLba = t.patchDirectory entries (d.data t.directoryLba) := by
  obtain ⟨fatImage, patched, isDevice⟩ := Option.map_eq_some_iff.mp planned
  rw [Device.put_data_other bitmapFat.symm] at patched
  rw [← isDevice]
  refine ⟨?_, ?_, ?_⟩
  · rw [Device.put_data_other bitmapDir, Device.put_data_other bitmapFat, Device.put_data_self]
  · rw [Device.put_data_other fatDir, Device.put_data_self, patched]
  · rw [Device.put_data_self, Device.put_data_other fatDir.symm, Device.put_data_other bitmapDir.symm]

/-- On a healthy device a commit of three distinct sectors that does not become ready has written
    nothing. -/
theorem commitExfatCreateTransaction_unready
    (committed : commitExfatCreateTransaction mb fs = (m, fs')) (size : mb.blockSize = 512)
    (writable : fs.dev.writable) (unready : m.exfat.commit.ready = false)
    (verified : mb.exfat.patched.ready → ∃ fatImage,
      patchFatWords (mb.exfat.transaction.fatOffsets.zip mb.exfat.transaction.fatNewValues)
        (fs.dev.data mb.exfat.transaction.fatLba) = some fatImage ∧
      (verifyPatchedExfatCreateTransaction mb.exfat
        (mb.exfat.transaction.patchBitmap (fs.dev.data mb.exfat.transaction.bitmapLba)) fatImage
        (mb.exfat.transaction.patchDirectory mb.exfat.createPlan.entries
          (fs.dev.data mb.exfat.transaction.directoryLba))).2)
    (apart : mb.exfat.transaction.directoryByteOffset + exfatCreatePlanEntryBytes ≤ 512 →
      mb.exfat.transaction.bitmapLba ≠ mb.exfat.transaction.fatLba ∧
      mb.exfat.transaction.bitmapLba ≠ mb.exfat.transaction.directoryLba ∧
      mb.exfat.transaction.fatLba ≠ mb.exfat.transaction.directoryLba) : fs' = fs := by
  simp only [commitExfatCreateTransaction] at committed
  split at committed
  · exact (Prod.mk.inj committed).2.symm
  rename_i tx' staged
  split at staged
  · cases staged
  rename_i dryRun
  obtain ⟨tx, gotAll, applied⟩ := Option.bind_eq_some_iff.mp staged
  obtain ⟨okTx, fits, shown, bitmapListed, fatListed, dirListed⟩ := applyPlan_over gotAll applied
  obtain ⟨bitmapFat, bitmapDir, fatDir⟩ := apart fits
  obtain ⟨isBitmap, isFat, isDir⟩ := planDevice_sectors shown bitmapFat bitmapDir fatDir
  obtain ⟨fatImage, patched, passed⟩ := verified (by simpa using dryRun)
  obtain rfl := Option.some.inj (isFat.symm.trans patched)
  -- The sectors written are the ones the dry run has verified.
  rw [Transaction.commit_ok size writable okTx] at committed
  rw [Transaction.sector_eq fs.dev bitmapListed, Transaction.sector_eq fs.dev fatListed,
    Transaction.sector_eq fs.dev dirListed, isBitmap, isDir] at committed
  dsimp only at committed
  split at committed
  · rename_i p failed
    rw [failed] at passed
    cases passed
  · obtain ⟨rfl, -⟩ := Prod.mk.inj committed
    cases unready

def parsedEntries (d : Device) : List RootEntry :=
  match blockRead d 0 with
  | none => []
  | some sector => (parseExfatVolume { blockSize := 512, exfat := parseExfatBootSector sector } d).2

/-- The state a mount leaves when its commit went through. -/
structure MountDone (m : Mount) (d : Device) (entries : List RootEntry) (fs : Fs) : Prop where
  counted : m.exfat.clusterCount < 2 ^ 32
  plan : PlanMade m d
  transaction : TransactionMade m d m.exfat.transaction
  fits : m.exfat.transaction.directoryByteOffset + 96 ≤ 512
  readOnly : ReadOnly entries
  entered : ∃ d', planDevice m.exfat.transaction m.exfat.createPlan.entries d = some d' ∧
    fs = enterNewFile m entries d'

section

variable (ran : planExfatCreateTransaction m₄ fs = (m, fs'))

include ran

theorem planExfatCreateTransaction_ready (before : m₄.exfat.commit.ready = false) (ready : m.exfat.commit.ready) :
    (∃ p c, m = { m₄ with exfat := { m₄.exfat with
        transaction := planTransaction m₄ fs.dev, patched := p, commit := c } }) ∧
      TransactionMade m fs.dev m.exfat.transaction ∧
      m.exfat.transaction.directoryByteOffset + exfatCreatePlanEntryBytes ≤ 512 ∧
      (m.blockSize = 512 → fs.dev.writable →
        ∃ d', planDevice m.exfat.transaction m.exfat.createPlan.entries fs.dev = some d' ∧
          fs' = enterNewFile m fs.rootEntries d') := by
  simp only [planExfatCreateTransaction] at ran
  split at ran
  · obtain ⟨rfl, rfl⟩ := Prod.mk.inj ran
    rw [before] at ready
    cases ready
  rename_i planned
  simp only [Bool.not_eq_true, Bool.not_eq_false'] at planned
  obtain ⟨⟨p, c, rfl⟩, tx, tx', d', staged, applied, written, rfl⟩ :=
    commitExfatCreateTransaction_ready ran before ready
  obtain ⟨okTx, fits, shown, _⟩ := applyPlan_over staged applied
  have made := planTransaction_ready planned
  refine ⟨⟨p, c, rfl⟩, made.congr rfl rfl rfl, fits, fun size writable => ?_⟩
  have isOver := written.symm.trans (Transaction.commit_ok (by exact size) writable okTx)
  rw [Prod.mk.injEq] at isOver
  exact ⟨d', isOver.1 ▸ shown, rfl⟩

/-- Whatever comes of it, the plan changes these three groups of fields only. -/
theorem planExfatCreateTransaction_record :
    ∃ p c, m = { m₄ with exfat := { m₄.exfat with
      transaction := planTransaction m₄ fs.dev, patched := p, commit := c } } := by
  simp only [planExfatCreateTransaction, commitExfatCreateTransaction] at ran
  repeat' split at ran
  all_goals
    obtain ⟨rfl, -⟩ := Prod.mk.inj ran
    exact ⟨_, _, rfl⟩

theorem planExfatCreateTransaction_unready (fresh : m₄.exfat.patched.ready = false)
    (size : m₄.blockSize = 512) (writable : fs.dev.writable)
    (unready : m.exfat.commit.ready = false)
    (apart : m.exfat.transaction.ready →
      m.exfat.transaction.directoryByteOffset + exfatCreatePlanEntryBytes ≤ 512 →
      m.exfat.transaction.bitmapLba ≠ m.exfat.transaction.fatLba ∧
      m.exfat.transaction.bitmapLba ≠ m.exfat.transaction.directoryLba ∧
      m.exfat.transaction.fatLba ≠ m.exfat.transaction.directoryLba) : fs' = fs := by
  obtain ⟨p, c, isM⟩ := planExfatCreateTransaction_record ran
  have isPlan : m.exfat.transaction = planTransaction m₄ fs.dev := by rw [isM]
  rw [isPlan] at apart
  simp only [planExfatCreateTransaction] at ran
  split at ran
  · exact (Prod.mk.inj ran).2.symm
  rename_i planned
  refine commitExfatCreateTransaction_unready ran size writable unready (fun ready => ?_)
    (apart (by simpa using planned))
  obtain ⟨fatImage, patched, passed⟩ := dryRun_ready (d := fs.dev)
    (m := { m₄ with exfat := { m₄.exfat with transaction := planTransaction m₄ fs.dev } }) fresh ready
  exact ⟨fatImage, patched, verify_patched.trans passed⟩

/-- A mount that does not commit enters no file in the table. -/
theorem planExfatCreateTransaction_entries (unready : m.exfat.commit.ready = false) :
    fs'.rootEntries = fs.rootEntries := by
  simp only [planExfatCreateTransaction, commitExfatCreateTransaction] at ran
  repeat' split at ran
  all_goals obtain ⟨rfl, rfl⟩ := Prod.mk.inj ran
  all_goals first
    | rfl
    | cases unready

end

/-- A mount starts with nothing verified and nothing committed. -/
theorem parseExfatVolume_fresh (m₀ : Mount) (d : Device) :
    (parseExfatVolume m₀ d).1.exfat.patched.ready = false ∧ (parseExfatVolume m₀ d).1.exfat.commit.ready = false := by
  simp only [parseExfatVolume, (encodeExfatCreatePlanEntries_keeps _).2.2.1,
    (encodeExfatCreatePlanEntries_keeps _).2.2.2.1, planExfatRootDirectoryCreate_keeps.2.2, and_self]

theorem clusterCount_parseExfatVolume (m₀ : Mount) (d : Device) :
    (parseExfatVolume m₀ d).1.exfat.clusterCount = m₀.exfat.clusterCount := by
  have same : (parseExfatVolume m₀ d).1.layout = _ := (encodeExfatCreatePlanEntries_keeps _).1.trans
    (planExfatRootDirectoryCreate_keeps.1.trans layout_parseExfatAllocationBitmap)
  have counts : (parseExfatVolume m₀ d).1.layout.exfat.clusterCount = m₀.exfat.clusterCount := by
    rw [same, Mount.layout]
  exact counts

theorem parseExfatRootDirectory_ready (size : m₀.blockSize = 512)
    (counted : m₀.exfat.clusterCount < 2 ^ 32) (ran : parseExfatRootDirectory m₀ d = (m, fs))
    (ready : m.exfat.commit.ready) (writable : d.writable) :
    MountDone m d (parseExfatVolume m₀ d).2 fs := by
  have planned := parseExfatVolume_plan (d := d) size
  have before := (parseExfatVolume_fresh m₀ d).2
  have counts := clusterCount_parseExfatVolume m₀ d
  have readOnly := parseExfatVolume_readOnly m₀ d
  simp only [parseExfatRootDirectory] at ran
  generalize parseExfatVolume m₀ d = parsed at ran planned before counts readOnly ⊢
  obtain ⟨m₄, entries⟩ := parsed
  obtain ⟨⟨p, c, rfl⟩, made, fits, entered⟩ := planExfatCreateTransaction_ready ran before ready
  have plan : PlanMade { m₄ with exfat := { m₄.exfat with
      transaction := planTransaction m₄ d, patched := p, commit := c } } d :=
    (planned made.entriesReady).congr rfl rfl rfl
  obtain ⟨d', written, isFs⟩ := entered plan.blockSize writable
  exact ⟨counts.trans_lt counted, plan, made, fits, readOnly, d', written, isFs⟩

theorem blockfsMount_ready (mounted : blockfsMount d = (m, fs))
    (ready : m.exfat.commit.ready) (writable : d.writable) :
    MountDone m d (parsedEntries d) fs := by
  simp only [blockfsMount] at mounted
  split at mounted
  · obtain ⟨rfl, rfl⟩ := Prod.mk.inj mounted
    cases ready
  rename_i sector isBoot
  split at mounted
  · have counted : (parseExfatBootSector sector).clusterCount < 2 ^ 32 := by
      simp only [parseExfatBootSector]
      split
      · norm_num
      · exact sector.readLe32_lt
    rw [parsedEntries, isBoot]
    exact parseExfatRootDirectory_ready rfl counted mounted ready writable
  · obtain ⟨rfl, rfl⟩ := Prod.mk.inj mounted
    simp only [parseExfatBootSector] at ready
    split at ready
    · cases ready
    · cases ready

theorem blockfsMount_readOnly (mounted : blockfsMount d = (m, fs))
    (unready : m.exfat.commit.ready = false) : ReadOnly fs.rootEntries := by
  unfold blockfsMount at mounted
  split at mounted
  · obtain ⟨-, rfl⟩ := Prod.mk.inj mounted
    intro e member
    cases member
  · dsimp only at mounted
    split at mounted
    · have entries := planExfatCreateTransaction_entries mounted unready
      rw [entries]
      exact parseExfatVolume_readOnly _ d
    · obtain ⟨-, rfl⟩ := Prod.mk.inj mounted
      intro e member
      cases member

end TangPingOS
