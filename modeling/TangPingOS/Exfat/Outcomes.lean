import TangPingOS.Exfat.Table

/-! # Outcomes of the file operations on a healthy device

When no transfer fails, each operation of the test build either is refused
before it writes, or ends in a state that can be written down. This module writes
these states down.
-/

namespace TangPingOS

open Lib

variable {name path : Bytes} {c : Creation} {d d' d₀ : Device} {fs : Fs} {cs : List Nat}
  {entries : List RootEntry} {m : Mount} {i k requested : Nat} {e : RootEntry}

theorem SameReserved.next (agree : SameReserved m d₀ d)
    (shape : d.SameShape d') (same : ∀ c, Reserved m d₀ c → fatWord m d' c = fatWord m d c) :
    SameReserved m d₀ d' :=
  ⟨agree.shape.trans shape, fun c reserved => (same c reserved).trans (agree.links c reserved)⟩

theorem SameReserved.zero (ground : Ground m d₀) (agree : SameReserved m d₀ d)
    (valid : ∀ c ∈ cs, exfatClusterValid m c) : SameReserved m d₀ (zeroClusters m cs d) :=
  agree.next (sameShape_zeroClusters m cs d) fun _ reserved =>
    fatWord_zeroClusters (agree.volume ground.vol) valid (ground.reserved_used reserved).1

theorem bytes_apply (inside : off + src.length ≤ 512) : (Patch.bytes off src).apply s = some (s.write off src) := by
  have small : wrap64 (off + src.length) ≤ 512 := by
    simp only [wrap64]
    omega
  simp [Patch.apply, Nat.not_lt.mpr small]

theorem Ground.clusterBytes (ground : Ground m d₀) (few : n ≤ 3) :
    wrap64 (m.sectorsPerCluster * 512 * n) = n * m.clusterSize := by
  have fits := ground.fits
  have below : n * m.clusterSize ≤ 3 * m.clusterSize := Nat.mul_le_mul_right _ few
  rw [← ground.vol.sized, Nat.mul_comm, wrap64, Nat.mod_eq_of_lt (by omega)]

/-! ## Create -/

/-- What a create is going to do, found by its checks. -/
structure Creation where
  name : Bytes
  clusters : List Nat
  lba : Nat
  offset : Nat

namespace Creation

def patches (c : Creation) (m : Mount) (d₀ : Device) : List (Nat × Patch) :=
  editPatches m d₀ true (linkWords c.clusters) ++
    [(c.lba, .bytes c.offset
      ((encodeExfatFileEntries c.name (c.clusters.headD 0) 0).slice 0 96))]

/-- The device after the clusters are wiped and the transaction is committed. -/
def device (c : Creation) (m : Mount) (d₀ d : Device) : Device :=
  Device.patchAll (c.patches m d₀) (zeroClusters m c.clusters d)

def entry (c : Creation) (m : Mount) : RootEntry :=
  { parent := rootPath
    name := c.name
    capacity := c.clusters.length * m.clusterSize
    directoryLba := c.lba
    directoryByteOffset := c.offset
    firstCluster := c.clusters.headD 0
    attributes := 0x20
    writable := true }

end Creation

/-- The checks of `create_exfat_test_file_with_clusters_for_test`. -/
def planCreation (m : Mount) (fs : Fs) (path : Bytes) (requested : Nat) : Option Creation :=
  if requested = 0 ∨ 3 < requested ∨ (findExfatRootEntry fs.rootEntries path).isSome then none
  else do
    let name ← parseExfatTestShortName path
    let clusters ← findExfatFreeClusterRun m fs.dev requested
    let slot ← findExfatRootDirectorySlot m fs.dev
    if 512 < slot.2 + 96 then none else some ⟨name, clusters, slot.1, slot.2⟩

/-- What the checks have made sure of. -/
structure Planned (m : Mount) (d₀ : Device) (fs : Fs) (c : Creation) : Prop where
  free : ∀ b ∈ c.clusters, Free m d₀ fs.dev b
  run : ∃ first, c.clusters = List.range' first c.clusters.length
  some_ : c.clusters ≠ []
  few : c.clusters.length ≤ 3
  slot : ∃ r, RootSlot m fs.dev r ∧ c.lba = r.lba ∧ c.offset = r.slot * 32
  fits : c.offset + 96 ≤ 512
  name : parseExfatTestShortName (0x2f :: c.name) = some c.name
  absent : ∀ e ∈ fs.rootEntries, ¬ (e.parent = rootPath ∧ e.name = c.name)

theorem Planned.valid (planned : Planned m d₀ fs c) : ∀ b ∈ c.clusters, exfatClusterValid m b :=
  fun b member => (planned.free b member).valid

theorem Planned.apart (planned : Planned m d₀ fs c) (table : Table m d₀ fs cells)
    (ground : Ground m d₀) : ∀ b ∈ c.clusters, ¬ Reserved m d₀ b :=
  fun b member => table.free_not_reserved ground (planned.free b member)

theorem findExfatRootEntry_short (parsed : parseExfatTestShortName path = some name) :
    findExfatRootEntry entries path =
      entries.findIdx? fun e => e.parent == rootPath && e.name == name := by
  simp only [findExfatRootEntry, splitPath_short parsed]

theorem planCreation_absent
    (plan : planCreation m fs path requested = some c) : findExfatRootEntry fs.rootEntries path = none := by
  unfold planCreation at plan
  split at plan
  · cases plan
  · rename_i checks
    simp only [not_or, Bool.not_eq_true, Option.isSome_eq_false_iff, Option.isNone_iff_eq_none] at checks
    exact checks.2.2

theorem planCreation_spec (ground : Ground m d₀) (agree : SameReserved m d₀ fs.dev)
    (planned : planCreation m fs path requested = some c) :
    Planned m d₀ fs c ∧ c.clusters.length = requested ∧ path = 0x2f :: c.name := by
  have missing := planCreation_absent planned
  simp only [planCreation] at planned
  split at planned
  · cases planned
  obtain ⟨name, parsed, planned⟩ := Option.bind_eq_some_iff.mp planned
  obtain ⟨clusters, found, planned⟩ := Option.bind_eq_some_iff.mp planned
  obtain ⟨slot, atSlot, planned⟩ := Option.bind_eq_some_iff.mp planned
  split at planned
  · cases planned
  rename_i fits
  rw [Option.some.injEq] at planned
  subst planned
  obtain ⟨len, pos, few, ⟨first, row⟩, free⟩ := findExfatFreeClusterRun_spec ground agree found
  obtain ⟨isPath, _⟩ := parseExfatTestShortName_spec parsed
  have fits := Nat.not_lt.mp fits
  refine ⟨⟨free, ⟨first, by rw [len]; exact row⟩, ?_, len ▸ few,
    findExfatRootDirectorySlot_spec (agree.volume ground.vol) atSlot fits, fits, isPath ▸ parsed, ?_⟩,
    len, isPath⟩
  · intro empty
    have zero := congrArg List.length empty
    simp only [List.length_nil] at zero
    omega
  · rw [findExfatRootEntry_short parsed, List.findIdx?_eq_none_iff] at missing
    intro e member same
    have differs := missing e member
    simp [same.1, same.2] at differs

private theorem creation_listed :
    ∀ lp ∈ c.patches m d₀, lp.1 = c.lba ∨
      ∃ b ∈ c.clusters, lp.1 = (place m d₀ b).lba ∨ lp.1 = fatSector m b := by
  intro lp member
  rcases List.mem_append.mp member with staged | isDirectory
  · obtain ⟨e, inChain, here⟩ := mem_map_editPatches.mp (List.mem_map_of_mem (f := Prod.fst) staged)
    exact .inr ⟨e.1, mem_of_mem_linkWords inChain, here⟩
  · exact .inl (by rw [List.mem_singleton.mp isDirectory])

theorem linkWords_valid (valid : ∀ b ∈ cs, exfatClusterValid m b) :
    ∀ e ∈ linkWords cs, exfatClusterValid m e.1 := fun e member =>
  valid e.1 (mem_of_mem_linkWords member)

section Create

variable (ground : Ground m d₀) (agree : SameReserved m d₀ fs.dev)

include ground agree

theorem Planned.lba (planned : Planned m d₀ fs c) :
    ∃ i b j, rootChain m d₀ i = some b ∧ j < m.sectorsPerCluster ∧ c.lba = heapSector m b j := by
  obtain ⟨r, ⟨i, b, j, chain, within, foundAt⟩, same, _⟩ := planned.slot
  exact ⟨i, b, j, (agree.rootChain_eq ground.vol i) ▸ chain, within, same.trans foundAt.lba⟩

/-- Staging a create never needs a fifth sector, and its commit applies the patches. -/
theorem stageCreate_ok (planned : Planned m d₀ fs c) :
    ∃ tx, stageCreate m (zeroClusters m c.clusters fs.dev) c.clusters c.lba c.offset
        (encodeExfatFileEntries c.name (c.clusters.headD 0) 0) = some tx ∧
      tx.commit m (zeroClusters m c.clusters fs.dev) = (c.device m d₀ fs.dev, true) := by
  have valid := planned.valid
  have agree' := agree.zero ground valid
  have vol' := agree'.volume ground.vol
  have valids := linkWords_valid valid
  obtain ⟨first, row⟩ := planned.run
  obtain ⟨i, b, j, chain, within, lba⟩ := planned.lba ground agree
  have applies : (zeroClusters m c.clusters fs.dev).Applies (c.patches m d₀) := by
    refine Device.applies_append.mpr ⟨editPatches_applies ground _ valids, ?_, trivial⟩
    rw [bytes_apply (by rw [Buf.length_slice]; exact planned.fits)]
    rfl
  have accepted : ∀ lp ∈ c.patches m d₀, (zeroClusters m c.clusters fs.dev).accepts lp.1 := by
    intro lp member
    rcases List.mem_append.mp member with staged | isDirectory
    · exact editPatches_accepted ground agree' true valids lp staged
    · rw [List.mem_singleton.mp isDirectory, lba]
      exact vol'.io.heap b j (exfatResolveCluster_valid chain) within
  have few := run_few ground c.lba planned.few (fun b member => valid b (row ▸ member))
      fun lp member => (creation_listed lp member).imp id
        fun ⟨b, inRun, here⟩ => ⟨b, row ▸ inRun, here⟩
  obtain ⟨tx, staged, committed⟩ :=
    Transaction.commit_mutateAll vol'.blockSize vol'.io.writable accepted applies few
  refine ⟨tx, ?_, committed⟩
  rw [stageCreate, stageChain_eq ground agree' valid, ← staged, Creation.patches,
    Transaction.mutateAll_append]
  refine congrArg (Option.bind _) (funext fun tx' => ?_)
  rw [Transaction.mutateAll_cons]
  cases tx'.mutate m (zeroClusters m c.clusters fs.dev) c.lba _ <;> rfl

/-- Outcome of `create_exfat_test_file_with_clusters_for_test`: the commit comes before the
    table is asked for room. -/
theorem createExfatTestFileWithClusters_eq (ready : m.exfat.commit.ready) :
    createExfatTestFileWithClusters m fs path requested =
      match planCreation m fs path requested with
      | none => (fs, false)
      | some c =>
        if maxRootEntries ≤ fs.rootEntries.length then ({ fs with dev := c.device m d₀ fs.dev }, false)
        else
          ({ rootEntries := fs.rootEntries ++ [c.entry m], dev := c.device m d₀ fs.dev }, true) := by
  by_cases bounds : requested = 0 ∨ 3 < requested
  · rcases bounds with none | many
    · simp [createExfatTestFileWithClusters, planCreation, none]
    · simp [createExfatTestFileWithClusters, planCreation, many, exfatAllocPlanClusterCount]
  obtain ⟨some_, few⟩ := not_or.mp bounds
  cases parsed : parseExfatTestShortName path with
  | none => simp [createExfatTestFileWithClusters, planCreation, parsed]
  | some name =>
  cases present : (findExfatRootEntry fs.rootEntries path).isSome with
  | true => simp [createExfatTestFileWithClusters, planCreation, parsed, present]
  | false =>
  cases found : findExfatFreeClusterRun m fs.dev requested with
  | none => simp [createExfatTestFileWithClusters, planCreation, parsed, found]
  | some clusters =>
  cases atSlot : findExfatRootDirectorySlot m fs.dev with
  | none => simp [createExfatTestFileWithClusters, planCreation, parsed, found, atSlot]
  | some slot =>
  by_cases fits : 512 < slot.2 + 96
  · simp [createExfatTestFileWithClusters, planCreation, parsed, found, atSlot, fits,
      exfatCreatePlanEntryBytes]
  have plan : planCreation m fs path requested = some ⟨name, clusters, slot.1, slot.2⟩ := by
    simp [planCreation, parsed, present, found, atSlot, fits, some_, few]
  obtain ⟨planned, len, _⟩ := planCreation_spec ground agree plan
  have wiped := zeroExfatClusters_ok (agree.volume ground.vol) planned.valid
  obtain ⟨tx, staged, committed⟩ := stageCreate_ok ground agree planned
  have capacity := ground.clusterBytes (Nat.not_lt.mp few)
  have positive := Nat.mul_ne_zero some_ (Nat.ne_of_gt ground.vol.clusterSize_pos)
  have named : copyLimited 64 name = name := by
    obtain ⟨_, _, short, _⟩ := parseExfatTestShortName_spec parsed
    exact List.take_of_length_le (by omega)
  have nonempty : name ≠ [] := (parseExfatTestShortName_spec parsed).2.1
  simp only [plan, createExfatTestFileWithClusters, ready, some_, few, parsed, present, found, atSlot,
    fits, capacity, positive, wiped, staged, committed, exfatAllocPlanClusterCount,
    exfatCreatePlanEntryBytes, Bool.not_true, beq_iff_eq, Bool.or_eq_true,
    decide_eq_true_eq, if_false, Bool.false_eq_true, or_false, addExfatRootEntry, nonempty]
  have rootNamed : copyLimited 64 rootPath = rootPath := rfl
  by_cases full : maxRootEntries ≤ fs.rootEntries.length
  · simp [full]
  · simp [full, Creation.entry, named, rootNamed, len]

end Create

/-! ## Extend -/

def extendPatches (m : Mount) (d₀ : Device) (last : Nat) (new : List Nat) : List (Nat × Patch) :=
  fatPatch m last (new.headD 0) :: editPatches m d₀ true (linkWords new)

def extendedDevice (m : Mount) (d₀ : Device) (last : Nat) (new : List Nat) (d : Device) : Device :=
  Device.patchAll (extendPatches m d₀ last new) (zeroClusters m new d)

section Extend

variable (ground : Ground m d₀) (agree : SameReserved m d₀ fs.dev)

include ground agree

theorem stageExtend_ok
    (found : findExfatFreeClusterRun m fs.dev requested = some new) (valid : exfatClusterValid m last) :
    ∃ tx, stageExtend m (zeroClusters m new fs.dev) last new = some tx ∧
      tx.commit m (zeroClusters m new fs.dev) = (extendedDevice m d₀ last new fs.dev, true) := by
  obtain ⟨len, _, few, ⟨first, row⟩, free⟩ := findExfatFreeClusterRun_spec ground agree found
  have validNew : ∀ b ∈ new, exfatClusterValid m b := fun b member => (free b member).valid
  have agree' := agree.zero ground validNew
  have vol' := agree'.volume ground.vol
  have valids := linkWords_valid validNew
  have applies : (zeroClusters m new fs.dev).Applies (extendPatches m d₀ last new) :=
    ⟨fatPatch_applies m, editPatches_applies ground _ valids⟩
  have accepted : ∀ lp ∈ extendPatches m d₀ last new,
      (zeroClusters m new fs.dev).accepts lp.1 := by
    intro lp member
    rcases List.mem_cons.mp member with rfl | staged
    · exact vol'.io.fat last valid
    · exact editPatches_accepted ground agree' true valids lp staged
  have few : (Transaction.sectors [] (extendPatches m d₀ last new)).card ≤ exfatTestTxMaxSectors := by
    refine run_few ground (fatSector m last) few (fun b member => validNew b (row ▸ member))
      fun lp member => ?_
    rcases List.mem_cons.mp member with rfl | staged
    · exact .inl rfl
    · obtain ⟨e, inChain, here⟩ := mem_map_editPatches.mp (List.mem_map_of_mem (f := Prod.fst) staged)
      exact .inr ⟨e.1, row ▸ mem_of_mem_linkWords inChain, here⟩
  obtain ⟨tx, staged, committed⟩ :=
    Transaction.commit_mutateAll vol'.blockSize vol'.io.writable accepted applies few
  refine ⟨tx, ?_, committed⟩
  rw [← staged, extendPatches, Transaction.mutateAll_cons, stageExtend,
    writeFat_eq ground valid (new.headD 0) []]
  exact congrArg (Option.bind _) (funext fun tx' => stageChain_eq ground agree' validNew tx')

/-- Outcome of `extend_exfat_test_file_for_test` on an entry whose chain is `kept`. -/
theorem extendExfatTestFile_eq (writable : e.writable)
    (present : kept ≠ []) (collected : collectExfatTestClusterChain m fs.dev e = some kept)
    (valid : ∀ b ∈ kept, exfatClusterValid m b) :
    extendExfatTestFile m fs i e required =
      if required = 0 ∨ 3 < required ∨ required < kept.length then (fs, false)
      else if kept.length = required then (fs, true)
      else
        match findExfatFreeClusterRun m fs.dev (required - kept.length) with
        | none => (fs, false)
        | some new =>
          ({ rootEntries := fs.rootEntries.set i { e with capacity := required * m.clusterSize }
             dev := extendedDevice m d₀ (kept.getLastD 0) new fs.dev }, true) := by
  by_cases bounds : required = 0 ∨ 3 < required
  · rcases bounds with none | many
    · simp [extendExfatTestFile, none]
    · simp [extendExfatTestFile, many, exfatAllocPlanClusterCount]
  obtain ⟨some_, few⟩ := not_or.mp bounds
  have nonzero : kept.length ≠ 0 := mt List.length_eq_zero_iff.mp present
  by_cases long : required < kept.length
  · simp [extendExfatTestFile, collected, long]
  by_cases enough : kept.length = required
  · simp [extendExfatTestFile, writable, collected, few, enough,
      exfatAllocPlanClusterCount]
  cases found : findExfatFreeClusterRun m fs.dev (required - kept.length) with
  | none =>
    simp [extendExfatTestFile, collected, enough, found]
  | some new =>
  obtain ⟨_, _, _, _, free⟩ := findExfatFreeClusterRun_spec ground agree found
  have wiped := zeroExfatClusters_ok (agree.volume ground.vol) fun b member => (free b member).valid
  have lastValid : exfatClusterValid m (kept.getLastD 0) := by
    rw [List.getLastD_eq_getLast?, List.getLast?_eq_some_getLast present]
    exact valid _ (List.getLast_mem present)
  obtain ⟨tx, staged, committed⟩ := stageExtend_ok ground agree found lastValid
  have capacity := ground.clusterBytes (Nat.not_lt.mp few)
  have positive := Nat.mul_ne_zero some_ (Nat.ne_of_gt ground.vol.clusterSize_pos)
  simp only [extendExfatTestFile, writable, collected, few, long, found, wiped, staged,
    committed, capacity, positive, nonzero, exfatAllocPlanClusterCount, Bool.not_true,
    Bool.false_or, beq_iff_eq, Bool.or_eq_true, decide_eq_true_eq, or_self, if_false]

end Extend

/-! ## Unlink -/

section

variable (m : Mount) (d₀ : Device) (e : RootEntry) (cs : List Nat)

def unlinkPatches : List (Nat × Patch) :=
  (e.directoryLba, .deleteEntries e.directoryByteOffset 3) :: editPatches m d₀ false (freeWords cs)

/-- The device after the commit and the wiping of the freed clusters. -/
def unlinkedDevice (d : Device) : Device :=
  zeroClusters m cs (Device.patchAll (unlinkPatches m d₀ e cs) d)

end

theorem freeWords_valid (valid : ∀ b ∈ cs, exfatClusterValid m b) :
    ∀ e ∈ freeWords cs, exfatClusterValid m e.1 := fun e member =>
  valid e.1 (mem_of_mem_freeWords member)

/-- An unlink that does not get as far as its transaction changes nothing. -/
theorem unlink_refused (refused : parseExfatTestShortName path = none ∨
      ∀ i e, findExfatRootEntry fs.rootEntries path = some i → fs.rootEntries[i]? = some e →
        ¬ (e.writable ∧ e.isDir = false ∧ e.parent = rootPath)) :
    unlinkExfatTestFile m fs path = (fs, false) := by
  simp only [unlinkExfatTestFile]
  split
  · rfl
  rename_i checks
  rcases refused with unnamed | refused
  · simp [unnamed] at checks
  split
  · rfl
  rename_i i found
  split
  · rfl
  rename_i e atIndex
  have kind := refused i e found atIndex
  cases writable : e.writable
  · rfl
  cases file : e.isDir
  · have elsewhere : e.parent ≠ rootPath := fun inRoot => kind ⟨writable, file, inRoot⟩
    simp [elsewhere]
  · rfl

section Unlink

variable (ground : Ground m d₀) (agree : SameReserved m d₀ fs.dev) {kept : List Nat} (ok : EntryOk m d₀ e cs)
  (writable : e.writable) (few : kept.length ≤ 3) (valid : ∀ b ∈ kept, exfatClusterValid m b)
  (present : kept ≠ [])

include ground agree ok writable few valid present

theorem stageUnlink_eq :
    stageUnlink m fs.dev e kept = Transaction.mutateAll m fs.dev (unlinkPatches m d₀ e kept) [] := by
  have nonzero : kept.length ≠ 0 := mt List.length_eq_zero_iff.mp present
  have inside := ok.offset
  have checks : ¬ (512 < e.directoryByteOffset + exfatCreatePlanEntryBytes) :=
    Nat.not_lt.mpr inside
  have sizes : ¬ (kept.length = 0 ∨ exfatAllocPlanClusterCount < kept.length) := by
    simp only [exfatAllocPlanClusterCount]
    omega
  rw [unlinkPatches, Transaction.mutateAll_cons]
  simp only [stageUnlink, writable, checks, sizes, if_false]
  exact congrArg (Option.bind _) (funext fun tx => stageRelease_eq ground agree valid tx)

omit writable few present in
theorem unlinkPatches_accepted : ∀ lp ∈ unlinkPatches m d₀ e kept, fs.dev.accepts lp.1 := by
  intro lp member
  rcases List.mem_cons.mp member with rfl | staged
  · obtain ⟨_, b, j, chain, within, lba⟩ := ok.directory
    simp only [lba]
    exact (agree.volume ground.vol).io.heap b j (exfatResolveCluster_valid chain) within
  · exact editPatches_accepted ground agree false (freeWords_valid valid) lp staged

/-- Outcome of `unlink_exfat_test_file_for_test` on the entry the path names: it goes through
    exactly when the set is in use and the transaction needs at most four sectors. -/
theorem unlinkExfatTestFile_eq (ready : m.exfat.commit.ready)
    (named : (parseExfatTestShortName path).isSome) (found : findExfatRootEntry fs.rootEntries path = some i)
    (atIndex : fs.rootEntries[i]? = some e) (collected : collectExfatTestClusterChain m fs.dev e = some kept) :
    unlinkExfatTestFile m fs path =
      if ((Patch.deleteEntries e.directoryByteOffset 3).apply (fs.dev.data e.directoryLba)).isSome ∧
          (Transaction.sectors [] (unlinkPatches m d₀ e kept)).card ≤ exfatTestTxMaxSectors then
        ({ rootEntries := fs.rootEntries.set i {}
           dev := unlinkedDevice m d₀ e kept fs.dev }, true)
      else (fs, false) := by
  have vol := agree.volume ground.vol
  have accepted := unlinkPatches_accepted ground agree ok valid
  have staging := stageUnlink_eq ground agree ok writable few valid present
  have unnamed : (parseExfatTestShortName path).isNone = false := by
    simpa using named
  by_cases inUse :
      ((Patch.deleteEntries e.directoryByteOffset 3).apply (fs.dev.data e.directoryLba)).isSome
  · have applies : fs.dev.Applies (unlinkPatches m d₀ e kept) :=
      ⟨inUse, editPatches_applies ground _ (freeWords_valid valid)⟩
    by_cases fits : (Transaction.sectors [] (unlinkPatches m d₀ e kept)).card ≤ exfatTestTxMaxSectors
    · obtain ⟨tx, staged, committed⟩ :=
        Transaction.commit_mutateAll vol.blockSize vol.io.writable accepted applies fits
      have vol' := vol.ofShape (Device.sameShape_patchAll (unlinkPatches m d₀ e kept) fs.dev)
      have wiped := zeroExfatClusters_ok vol' valid
      simp [unlinkExfatTestFile, ready, unnamed, found, atIndex, writable, ok.file, ok.parent, collected,
        staging, staged, committed, wiped, inUse, fits, unlinkedDevice]
    · have staged := Transaction.mutateAll_full vol.blockSize Transaction.staged_nil accepted
        applies (Nat.not_le.mp fits)
      simp [unlinkExfatTestFile, found, atIndex, collected, staging, staged, fits]
  · have staged : Transaction.mutateAll m fs.dev (unlinkPatches m d₀ e kept) [] = none := by
      have refused : Transaction.mutate m fs.dev [] e.directoryLba
          (.deleteEntries e.directoryByteOffset 3) = none := by
        have head : (e.directoryLba, Patch.deleteEntries e.directoryByteOffset 3) ∈
            unlinkPatches m d₀ e kept := List.mem_cons_self
        obtain ⟨tx, got, _, shown, listed, _⟩ := Transaction.get_ok vol.blockSize
          Transaction.staged_nil (accepted _ head) (.inr (by decide))
        rw [Transaction.mutate, got]
        simp only [Transaction.sector_eq fs.dev listed, shown]
        simpa using inUse
      rw [unlinkPatches, Transaction.mutateAll_cons, refused, Option.bind_none]
    simp [unlinkExfatTestFile, found, atIndex, collected, staging, staged, inUse]

end Unlink

section Entry

variable (ground : Ground m d₀) (agree : SameReserved m d₀ d) (ok : EntryOk m d₀ e cs)

include ground agree ok

theorem EntryOk.accepted : d.accepts e.directoryLba := by
  obtain ⟨_, b, j, chain, within, lba⟩ := ok.directory
  rw [lba]
  exact (agree.volume ground.vol).io.heap b j (exfatResolveCluster_valid chain) within

/-- Outcome of `refresh_exfat_test_file_size_for_test`. -/
theorem refreshExfatTestFileSize_eq (ready : m.exfat.commit.ready) (writable : e.writable) (size : Nat) :
    refreshExfatTestFileSize m d e size =
      if e.capacity < size ∨ (d.data e.directoryLba).get e.directoryByteOffset ≠ 0x85 ∨
          (d.data e.directoryLba).get (e.directoryByteOffset + 32) ≠ 0xc0 then (d, none)
      else
        (d.put e.directoryLba
            (resizedEntrySet (d.data e.directoryLba) e.directoryByteOffset size),
          some { e with size := size }) := by
  have vol := agree.volume ground.vol
  have inside : ¬ 512 < e.directoryByteOffset + exfatCreatePlanEntryBytes :=
    Nat.not_lt.mpr ok.offset
  have accepted := ok.accepted ground agree
  have written := writeExfatSectorChecked_ok
    (resizedEntrySet (d.data e.directoryLba) e.directoryByteOffset size) vol.blockSize
    vol.io.writable accepted
  by_cases room : e.capacity < size
  · simp [refreshExfatTestFileSize, room]
  by_cases marked : (d.data e.directoryLba).get e.directoryByteOffset ≠ 0x85 ∨
      (d.data e.directoryLba).get (e.directoryByteOffset + 32) ≠ 0xc0
  · simp [refreshExfatTestFileSize, blockRead, accepted, marked]
  · simp [refreshExfatTestFileSize, ready, writable, inside, blockRead, accepted, marked, written]

end Entry

/-- The first writable file is the untouched `NEW.TXT` and may be given the name of the path. -/
structure Renames (m : Mount) (fs : Fs) (path : Bytes) (i : Nat) (e : RootEntry) (name : Bytes) : Prop where
  parsed : parseExfatTestShortName path = some name
  planned : m.exfat.transaction.directoryByteOffset + 96 ≤ 512
  absent : findExfatRootEntry fs.rootEntries path = none
  first : findExfatTestFileEntry fs.rootEntries = some i
  atIndex : fs.rootEntries[i]? = some e
  empty : e.size = 0
  isNew : e.name = newTxt
  fileMark : (fs.dev.data e.directoryLba).get e.directoryByteOffset = 0x85
  streamMark : (fs.dev.data e.directoryLba).get (e.directoryByteOffset + 32) = 0xc0
  nameMark : (fs.dev.data e.directoryLba).get (e.directoryByteOffset + 64) = 0xc1

def renamedFs (fs : Fs) (i : Nat) (e : RootEntry) (name : Bytes) : Fs :=
  { rootEntries := fs.rootEntries.set i { e with name := name }
    dev := fs.dev.put e.directoryLba
      (renamedEntrySet (fs.dev.data e.directoryLba) e.directoryByteOffset name) }

theorem findExfatTestFileEntry_writable
    (first : findExfatTestFileEntry entries = some i) (atIndex : entries[i]? = some e) :
    e.writable := by
  rw [findExfatTestFileEntry, List.findIdx?_eq_some_iff_getElem] at first
  obtain ⟨inside, good, _⟩ := first
  rw [List.getElem?_eq_getElem inside, Option.some.injEq] at atIndex
  subst atIndex
  simp only [Bool.and_eq_true] at good
  exact good.1.1

theorem Renames.writable (renames : Renames m fs path i e name) : e.writable :=
  findExfatTestFileEntry_writable renames.first renames.atIndex

theorem Renames.renamed (renames : Renames m fs path i e name) :
    (renamedFs fs i e name).rootEntries[i]? = some { e with name := name } :=
  List.getElem?_set_self (List.getElem?_eq_some_iff.mp renames.atIndex).1

/-- The rename goes through: the file is the untouched `NEW.TXT` and its directory sector can be
    written. -/
structure RenamesNew (m : Mount) (fs : Fs) (path : Bytes) (i : Nat) (e : RootEntry) (name : Bytes) : Prop
    extends Renames m fs path i e name where
  inside : e.directoryByteOffset + 96 ≤ 512
  blockSize : m.blockSize = 512
  writable : fs.dev.writable
  accepted : fs.dev.accepts e.directoryLba

theorem RenamesNew.done (ready : m.exfat.commit.ready) (renames : RenamesNew m fs path i e name) :
    renameExfatTestFile m fs path = (renamedFs fs i e name, true) := by
  have inside : ¬512 < e.directoryByteOffset + exfatCreatePlanEntryBytes := Nat.not_lt.mpr renames.inside
  have planned : ¬512 < m.exfat.transaction.directoryByteOffset + exfatCreatePlanEntryBytes :=
    Nat.not_lt.mpr renames.planned
  have written := writeExfatSectorChecked_ok
    (renamedEntrySet (fs.dev.data e.directoryLba) e.directoryByteOffset name) renames.blockSize
    renames.writable renames.accepted
  have named : copyLimited 64 name = name := by
    obtain ⟨_, _, short, _⟩ := parseExfatTestShortName_spec renames.parsed
    exact List.take_of_length_le (by omega)
  simp [renameExfatTestFile, renames.parsed, ready, planned, renames.absent, renames.first, renames.atIndex,
    renames.empty, renames.isNew, inside, blockRead, renames.accepted, renames.fileMark, renames.streamMark,
    renames.nameMark, written, renamedFs, named]

theorem renameExfatTestFile_kept (ready : m.exfat.commit.ready)
    (absent : findExfatRootEntry fs.rootEntries path = none)
    (refused : ∀ i e name, ¬RenamesNew m fs path i e name) : renameExfatTestFile m fs path = (fs, false) := by
  simp only [renameExfatTestFile]
  split
  · rfl
  rename_i name parsed
  split
  · rfl
  rename_i checks
  simp only [ready, Bool.not_true, Bool.false_or, decide_eq_true_eq] at checks
  simp only [absent, Option.isSome_none, Bool.false_eq_true, if_false]
  split
  · rfl
  rename_i i first
  split
  · rfl
  rename_i e atIndex
  split
  · rfl
  rename_i isNew
  simp only [not_or, not_not] at isNew
  cases accepted : fs.dev.accepts e.directoryLba with
  | false => simp [blockRead, accepted]
  | true =>
    simp only [blockRead, accepted, if_true]
    split
    · rfl
    rename_i marks
    simp only [not_or, not_not] at marks
    -- all that is left to refuse the rename is the write
    have unable : ¬(m.blockSize = 512 ∧ fs.dev.writable) := fun good =>
      refused i e name ⟨⟨parsed, Nat.not_lt.mp checks, absent, first, atIndex, isNew.1, isNew.2.1,
        marks.1, marks.2.1, marks.2.2⟩, Nat.not_lt.mp isNew.2.2, good.1, good.2, accepted⟩
    have unwritten : writeExfatSectorChecked m fs.dev e.directoryLba
        (renamedEntrySet (fs.dev.data e.directoryLba) e.directoryByteOffset name) = (fs.dev, false) := by
      by_cases size : m.blockSize = 512
      · have readOnly : fs.dev.writable = false := by
          cases writable : fs.dev.writable with
          | false => rfl
          | true => exact absurd ⟨size, writable⟩ unable
        simp [writeExfatSectorChecked, blockWrite, readOnly]
      · simp [writeExfatSectorChecked, size]
    simp only [unwritten]

theorem renameExfatTestFile_refused (ready : m.exfat.commit.ready)
    (absent : findExfatRootEntry fs.rootEntries path = none)
    (refused : ∀ i e name, ¬ Renames m fs path i e name) :
    renameExfatTestFile m fs path = (fs, false) :=
  renameExfatTestFile_kept ready absent fun i e name holds => refused i e name holds.toRenames

section Rename

variable {cells : Nat → List Nat} (ground : Ground m d₀) (table : Table m d₀ fs cells)

include ground table

theorem Renames.new (renames : Renames m fs path i e name) : RenamesNew m fs path i e name := by
  have vol := table.volume ground
  have ok := table.entries i e renames.atIndex renames.writable
  exact ⟨renames, ok.offset, vol.blockSize, vol.io.writable, ok.accepted ground table.agree⟩

theorem renameExfatTestFile_ok (ready : m.exfat.commit.ready) (renames : Renames m fs path i e name) :
    renameExfatTestFile m fs path = (renamedFs fs i e name, true) :=
  (renames.new ground table).done ready

end Rename

/-! ## Data -/

theorem followFatChain_mem (vol : Volume m d) {c c' rest}
    (linked : Linked (fatWord m d) fatEnd (c :: rest)) (valid : ∀ b ∈ c :: rest, exfatClusterValid m b)
    (found : followFatChain m d c k = some c') : c' ∈ c :: rest := by
  induction k generalizing c rest with
  | zero =>
    rw [followFatChain, Option.some.injEq] at found
    exact found ▸ List.mem_cons_self
  | succ k ih =>
    rw [followFatChain_succ vol (valid c List.mem_cons_self), linked.1] at found
    cases rest with
    | nil =>
      have mark : decide (0xfffffff8 ≤ fatEnd) := by decide
      cases found
    | cons b rest =>
      split at found
      · cases found
      · exact List.mem_cons_of_mem c
          (ih linked.2 (fun a member => valid a (List.mem_cons_of_mem c member)) found)

section

variable (vol : Volume m d) (ok : EntryOk m d₀ e cs) (linked : Linked (fatWord m d) fatEnd cs)

include vol ok linked

theorem exfatResolveCluster_mem {c}
    (resolved : exfatResolveCluster m d e.firstCluster e.streamFlags k = some c) : c ∈ cs := by
  rw [ok.flags] at resolved
  obtain ⟨rest, rfl⟩ : ∃ rest, cs = e.firstCluster :: rest := by
    cases cs with
    | nil => cases ok.first
    | cons b rest =>
      have same := ok.first
      rw [List.head?_cons, Option.some.injEq] at same
      exact ⟨rest, by rw [same]⟩
  rw [exfatResolveCluster_zero_flags, if_pos (ok.valid _ List.mem_cons_self)] at resolved
  exact followFatChain_mem vol linked ok.valid resolved

/-- File data is read and written in the clusters of the file. -/
theorem exfatFileSector_mem (found : exfatFileSector m d e pos = some lba) : InClusters m cs lba := by
  obtain ⟨c, resolved, reached⟩ := Option.bind_eq_some_iff.mp found
  have member := exfatResolveCluster_mem vol ok linked resolved
  simp only at reached
  split at reached
  · cases reached
  rename_i inside
  rw [Option.some.injEq] at reached
  obtain ⟨_, inside⟩ := not_or.mp inside
  rw [vol.wrap64_lba (ok.valid c member) (Nat.not_le.mp inside)] at reached
  exact ⟨c, member, _, Nat.not_le.mp inside, reached.symm⟩

end

/-- `d'` differs from `d` in the sectors of some clusters only. -/
structure DataOnly (m : Mount) (cs : List Nat) (d d' : Device) : Prop where
  shape : d.SameShape d'
  outside : ∀ lba, ¬ InClusters m cs lba → d'.data lba = d.data lba

theorem DataOnly.refl (m : Mount) (cs : List Nat) (d : Device) : DataOnly m cs d d :=
  ⟨.refl d, fun _ _ => rfl⟩

theorem DataOnly.fatWord (only : DataOnly m cs d d')
    (vol : Volume m d) (valid : ∀ b ∈ cs, exfatClusterValid m b) {c}
    (valid' : exfatClusterValid m c) : fatWord m d' c = fatWord m d c := by
  have outside : ¬ InClusters m cs (fatSector m c) := by
    rintro ⟨b, member, i, inside, same⟩
    exact vol.fatSector_ne_heapSector valid' (valid b member) inside same
  simp only [TangPingOS.fatWord, only.outside _ outside]

/-- The copy loop of a write touches the clusters of the file only. -/
theorem writeFrom_dataOnly (vol : Volume m d) (ok : EntryOk m d₀ e cs) (linked : Linked (fatWord m d) fatEnd cs)
    (only : DataOnly m cs d d') :
    DataOnly m cs d (writeFrom m e offset data fuel written d').1 := by
  induction fuel generalizing written d' with
  | zero => exact only
  | succ fuel ih =>
    have vol' := vol.ofShape only.shape
    have linked' := linked.congr fun c member =>
      only.fatWord vol ok.valid (ok.valid c member)
    simp only [writeFrom]
    split
    · split
      · exact only
      rename_i lba found
      have inFile := exfatFileSector_mem vol' ok linked' found
      obtain ⟨c, member, j, inside, isSector⟩ := inFile
      have accepted := isSector ▸ vol'.io.heap c j (ok.valid c member) inside
      have put (s : Sector) : DataOnly m cs d (d'.put lba s) := by
        refine ⟨only.shape.trans (d'.sameShape_put lba s), fun other outside => ?_⟩
        have apart : other ≠ lba := fun same =>
          outside ⟨c, member, j, inside, same.trans isSector⟩
        rw [Device.put_data_other apart, only.outside other outside]
      simp only [blockRead, accepted,
        writeExfatSectorChecked_ok _ vol'.blockSize vol'.io.writable accepted]
      exact ih (put _)
    · exact only

end TangPingOS
