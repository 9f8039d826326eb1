import TangPingOS.Exfat.Parse

/-! # Names across reboots

A history of an exFAT volume: it is mounted, files are written, truncated and
deleted, and after a reboot a fresh kernel mounts what is on the disk. The mount
itself creates `NEW.TXT` without a look at what is there, so names stay apart only
if no set of that name is left on the disk when it is mounted.
-/

namespace TangPingOS

open Lib

variable {d d' d₀ : Device} {cs : List Nat} {entries : List RootEntry} {m : Mount} {st : Mount × Fs}
  {lba : Nat} {w w' : World}

/-! ## What the boot sector says -/

/-- The fields of a mount record that are read from the boot sector. -/
def Mount.boot (m : Mount) : Mount :=
  { m with exfat := { m.exfat with
      allocationBitmap := {}
      allocationPlan := {}
      createPlan := {}
      transaction := {}
      patched := {}
      commit := {} } }

theorem followFatChain_boot : followFatChain m.boot d c i = followFatChain m d c i := by
  induction i generalizing c with
  | zero => rfl
  | succ i ih =>
    simp only [followFatChain, ih]
    rfl

theorem rootChain_boot : rootChain m.boot d = rootChain m d := by
  funext i
  simp only [rootChain, exfatResolveCluster, followFatChain_boot]
  rfl

theorem rootSector_boot : RootSector m.boot d = RootSector m d := by
  funext lba
  simp only [RootSector, rootChain_boot]
  rfl

theorem rootSectorAt_boot : rootSectorAt m.boot d = rootSectorAt m d := by
  funext q
  simp only [rootSectorAt, rootChain_boot]
  rfl

theorem boot_of_layout {m' : Mount} (same : m.layout = m'.layout) : m.boot = m'.boot := by
  have boots : m.layout.boot = m'.layout.boot := by rw [same]
  exact boots

theorem boot_parseExfatVolume (m : Mount) (d : Device) : (parseExfatVolume m d).1.boot = m.boot := by
  simp only [parseExfatVolume]
  rw [boot_of_layout ((encodeExfatCreatePlanEntries_keeps _).1),
    boot_of_layout (planExfatRootDirectoryCreate_keeps.1),
    boot_of_layout layout_parseExfatAllocationBitmap]
  rfl

/-- The record of a mount, before anything but the boot sector is read. -/
def bootRecord (d : Device) : Mount := { blockSize := 512, exfat := parseExfatBootSector (d.data 0) }

theorem boot_blockfsMount (accepted : d.accepts 0) : (blockfsMount d).1.boot = (bootRecord d).boot := by
  have read := blockRead_eq_some.mpr ⟨accepted, rfl⟩
  simp only [blockfsMount, read]
  split
  · have parsed := boot_parseExfatVolume (bootRecord d) d
    rw [bootRecord] at parsed ⊢
    unfold parseExfatRootDirectory
    generalize parseExfatVolume _ d = outcome at parsed ⊢
    obtain ⟨m₄, entries⟩ := outcome
    dsimp only
    generalize isRun : planExfatCreateTransaction m₄ ⟨entries, d⟩ = result
    obtain ⟨m, fs⟩ := result
    obtain ⟨p, c, rfl⟩ := planExfatCreateTransaction_record isRun
    exact parsed
  · rfl

section SameBoot

variable {m' : Mount} (same : m.boot = m'.boot)

include same

theorem rootSector_congr : RootSector m d = RootSector m' d := by
  rw [← rootSector_boot, same, rootSector_boot]

theorem rootChain_congr : rootChain m d = rootChain m' d := by
  rw [← rootChain_boot, same, rootChain_boot]

theorem rootSectorAt_congr : rootSectorAt m d = rootSectorAt m' d := by
  rw [← rootSectorAt_boot, same, rootSectorAt_boot]

theorem Volume.ofBoot (vol : Volume m d) : Volume m' d := by
  have boot : Volume m.boot d :=
    ⟨vol.geometry, vol.blockSize, vol.counted, vol.sized, vol.fatCovers, vol.fatOutsideHeap, vol.heapInside,
      ⟨vol.io.writable, vol.io.fat, vol.io.heap⟩⟩
  rw [same] at boot
  exact ⟨boot.geometry, boot.blockSize, boot.counted, boot.sized, boot.fatCovers, boot.fatOutsideHeap,
    boot.heapInside, ⟨boot.io.writable, boot.io.fat, boot.io.heap⟩⟩

theorem DirectoryOk.ofBoot (ok : DirectoryOk m d) : DirectoryOk m' d := by
  obtain ⟨simple, sectors, ended⟩ := ok
  rw [rootChain_congr same] at simple
  rw [rootSector_congr same] at sectors
  rw [rootSectorAt_congr same] at ended
  exact ⟨simple, sectors, ended⟩

theorem SetsDistinct.ofBoot (distinct : SetsDistinct m d d') : SetsDistinct m' d d' := by
  unfold SetsDistinct at distinct ⊢
  rw [rootSector_congr same] at distinct
  exact distinct

theorem AllParsed.ofBoot (parsed : AllParsed m d entries) : AllParsed m' d entries := by
  obtain ⟨sound, complete, distinct⟩ := parsed
  rw [rootSector_congr same] at sound complete
  exact ⟨sound, complete, distinct⟩

end SameBoot

/-! ## Sectors that no operation writes -/

/-- The sector belongs neither to the FAT nor to the cluster heap. -/
structure Foreign (m : Mount) (lba : Nat) : Prop where
  fat : ∀ c, exfatClusterValid m c → lba ≠ fatSector m c
  heap : ∀ c i, exfatClusterValid m c → i < m.sectorsPerCluster → lba ≠ heapSector m c i

theorem foreign_boot (vol : Volume m d) (behind : 0 < m.exfat.fatOffset) : Foreign m 0 := by
  have geometry := vol.geometry
  simp only [exfatGeometryValid, Bool.and_eq_true, decide_eq_true_eq] at geometry
  constructor
  · intro c _
    unfold fatSector
    omega
  · intro c i _ _
    unfold heapSector
    omega

namespace Foreign

variable (foreign : Foreign m lba) (ground : Ground m d₀)

include foreign

theorem root (root : RootSector m d₀ lba) : False := by
  obtain ⟨i, b, j, chain, inside, isLba⟩ := root
  exact foreign.heap b j (exfatResolveCluster_valid chain) inside isLba

theorem outside (valid : ∀ c ∈ cs, exfatClusterValid m c) : ¬ InClusters m cs lba := by
  rintro ⟨c, member, i, inside, isLba⟩
  exact foreign.heap c i (valid c member) inside isLba

theorem zero (valid : ∀ c ∈ cs, exfatClusterValid m c) :
    (zeroClusters m cs d).data lba = d.data lba := if_neg (foreign.outside valid)

include ground

theorem edit {set : Bool} (valid : ∀ e ∈ edits, exfatClusterValid m e.1) : (Device.patchAll (editPatches m d₀ set edits) d).data lba = d.data lba := by
  apply Device.patchAll_data_other
  intro lp member isLba
  have listed : lba ∈ (editPatches m d₀ set edits).map Prod.fst := isLba ▸ List.mem_map_of_mem member
  obtain ⟨e, inEdits, bit | word⟩ := mem_map_editPatches.mp listed
  · obtain ⟨-, -, i, b, j, chain, inside, isPlace⟩ := ground.place_spec (valid e inEdits)
    exact foreign.heap b j (exfatResolveCluster_valid chain) inside (bit.trans isPlace)
  · exact foreign.fat e.1 (valid e inEdits) word

end Foreign

theorem Step.foreign (ground : Ground m d₀)
    (step : Step m d₀ w w') (table : Table m d₀ w.fs w.cells) (foreign : Foreign m lba) :
    w'.fs.dev.data lba = w.fs.dev.data lba := by
  have created {c : Creation} (planned : Planned m d₀ w.fs c) :
      (c.device m d₀ w.fs.dev).data lba = w.fs.dev.data lba := by
    have elsewhere : lba ≠ c.lba := fun here =>
      foreign.root (here ▸ planned.lba ground table.agree : RootSector m d₀ lba)
    rw [Creation.device, Creation.patches, Device.patchAll_append, Device.patchAll_cons, Device.patchAll,
      Device.patch_data_other _ elsewhere, foreign.edit ground (linkWords_valid planned.valid),
      foreign.zero planned.valid]
  have entry {i : Nat} {e : RootEntry} (live : w.fs.Live i e) : lba ≠ e.directoryLba := fun here =>
    foreign.root (here ▸ (table.entries i e live.1 live.2).directory : RootSector m d₀ lba)
  cases step with
  | create c planned room => exact created planned
  | orphan c planned full => exact created planned
  | extend atIndex writable begins isLast found few grows =>
    obtain ⟨-, -, -, -, free⟩ := findExfatFreeClusterRun_spec ground table.agree found
    have last := begins.subset (List.mem_of_getLast? isLast)
    have valid := fun b member => (free b member).valid
    rw [extendedDevice, extendPatches, Device.patchAll_cons, foreign.edit ground (linkWords_valid valid)]
    exact (Device.patch_data_other _ (foreign.fat _ (table.cell_valid last))).trans (foreign.zero valid)
  | unlink atIndex writable begins inUse =>
    have valid := fun b member => table.cell_valid (begins.subset (a := b) member)
    rw [unlinkedDevice, unlinkPatches, Device.patchAll_cons, foreign.zero valid,
      foreign.edit ground (freeWords_valid valid),
      Device.patch_data_other _ (entry ⟨atIndex, writable⟩)]
  | data i only => exact only.outside lba (foreign.outside fun _ member => table.cell_valid member)
  | resize atIndex writable fits => exact Device.put_data_other (entry ⟨atIndex, writable⟩)
  | rename renames =>
    exact Device.put_data_other (entry ⟨renames.atIndex, renames.writable⟩)

theorem Steps.foreign (ground : Ground m d₀)
    (steps : Steps m d₀ w w') (table : Table m d₀ w.fs w.cells) (foreign : Foreign m lba) :
    w'.fs.dev.data lba = w.fs.dev.data lba := by
  induction steps with
  | refl => rfl
  | tail before last ih => exact (last.foreign ground (table.steps ground before) foreign).trans ih

/-! ## Mounting -/

/-- A disk whose mount keeps names apart: a well-formed volume that leaves the boot sector alone, with
    a root directory in order and without a `NEW.TXT`, where the table has room for all that is found
    and no subdirectory has two entries of one name. -/
structure Bootable (d : Device) : Prop where
  wellFormed : WellFormed (blockfsMount d).1 d
  io : IoSucceeds (blockfsMount d).1 d
  apart : ∀ i j c, rootChain (blockfsMount d).1 d i = some c → bitmapChain (blockfsMount d).1 d j ≠ some c
  fits : 3 * ((blockfsMount d).1.sectorsPerCluster * 512) < 2 ^ 64
  behindBoot : 0 < (blockfsMount d).1.exfat.fatOffset
  directory : DirectoryOk (blockfsMount d).1 d
  noNewTxt : ∀ lba k, RootSector (blockfsMount d).1 d lba → FileSlot (d.data lba) k →
    setName (d.data lba) k ≠ newTxt
  room : (parsedEntries d).length < maxRootEntries
  children : ∀ (i j : Nat) (e e' : RootEntry), i ≠ j → (parsedEntries d)[i]? = some e →
    (parsedEntries d)[j]? = some e' → e.parent ≠ rootPath → ¬ (e.parent = e'.parent ∧ e.name = e'.name)

theorem entriesDistinct_of_pairwise
    (distinct : entries.Pairwise fun e e' => e.name ≠ e'.name) : EntriesDistinct entries := by
  intro i j e e' other atI atJ _ same
  obtain ⟨insideI, rfl⟩ := List.getElem?_eq_some_iff.mp atI
  obtain ⟨insideJ, rfl⟩ := List.getElem?_eq_some_iff.mp atJ
  rw [List.pairwise_iff_getElem] at distinct
  obtain before | after := Nat.lt_or_gt_of_ne other
  · exact distinct i j insideI insideJ before same.2
  · exact distinct j i insideJ insideI after same.2.symm

namespace Bootable

variable (ok : Bootable d)

include ok

theorem accepts : d.accepts 0 := by
  by_contra refused
  have geometry := ok.wellFormed.geometry
  have unread : blockRead d 0 = none := if_neg refused
  simp [blockfsMount, unread, exfatGeometryValid] at geometry

theorem boot : (blockfsMount d).1.boot = (bootRecord d).boot := boot_blockfsMount ok.accepts

theorem present : (bootRecord d).exfat.present := by
  have geometry := ok.wellFormed.geometry
  simp only [exfatGeometryValid, Bool.and_eq_true] at geometry
  have same : (blockfsMount d).1.boot.exfat.present = (bootRecord d).boot.exfat.present := by rw [ok.boot]
  exact same.symm.trans geometry.1.1.1.1.1

theorem volume : Volume (blockfsMount d).1 d := by
  have geometry := ok.wellFormed.geometry
  have size : (blockfsMount d).1.boot.blockSize = 512 := by
    rw [ok.boot]
    rfl
  have small : (blockfsMount d).1.boot.exfat.clusterCount < 2 ^ 32 := by
    rw [ok.boot]
    show (parseExfatBootSector (d.data 0)).clusterCount < 2 ^ 32
    unfold parseExfatBootSector
    split
    · norm_num
    · exact Buf.readLe32_lt _
  have fits := ok.fits
  refine ⟨geometry, size, ?_, ?_, ok.wellFormed.fatCovers, ok.wellFormed.fatOutsideHeap,
    ok.wellFormed.heapInside, ok.io⟩
  · simp only [exfatGeometryValid, Bool.and_eq_true, decide_eq_true_eq] at geometry
    have high := geometry.2
    have counted : (blockfsMount d).1.exfat.clusterCount < 2 ^ 32 := small
    simp only [Mount.clusterEnd] at high ⊢
    omega
  · exact Nat.mod_eq_of_lt (by omega)

theorem ground : Ground (blockfsMount d).1 d where
  vol := ok.volume
  wellFormed := ok.wellFormed
  apart := ok.apart
  fits := by
    rw [ok.volume.sized]
    exact ok.fits

theorem parsedEntries_eq : parsedEntries d = (parseExfatVolume (bootRecord d) d).2 := by
  have read := blockRead_eq_some.mpr ⟨ok.accepts, rfl⟩
  rw [parsedEntries, read]
  rfl

/-- The table as the mount has read it: all sets of the root directory, then the subdirectories. -/
theorem parsed (distinct : SetsDistinct (blockfsMount d).1 d d) :
    ∃ own children, parsedEntries d = own ++ children ∧ AllParsed (blockfsMount d).1 d own ∧
      ∀ e ∈ children, e.writable = false ∧ e.parent ≠ rootPath ∧ e.name ≠ [] := by
  have same := ok.boot
  have own := parseRoot_spec (ok.volume.ofBoot same) (ok.directory.ofBoot same) (distinct.ofBoot same)
    (bootRecord d).exfat.allocationBitmap
  obtain ⟨children, isTable, good⟩ := parseSubdirectories_adds (bootRecord d) d maxRootEntries 0
    (parseExfatDirectoryChain (bootRecord d) d rootPath (bootRecord d).exfat.rootDirCluster 0
      { bitmap := (bootRecord d).exfat.allocationBitmap, entries := [] })
  refine ⟨_, children, ?_, own.ofBoot same.symm, good⟩
  rw [ok.parsedEntries_eq]
  exact isTable

theorem readOnly : ReadOnly (parsedEntries d) := by
  rw [ok.parsedEntries_eq]
  exact parseExfatVolume_readOnly _ d

theorem names (distinct : SetsDistinct (blockfsMount d).1 d d) :
    Names (blockfsMount d).1 d ⟨parsedEntries d, d⟩ := by
  obtain ⟨own, children, isTable, parsed, good⟩ := ok.parsed distinct
  have length : own.length < maxRootEntries := by
    have room := ok.room
    rw [isTable, List.length_append] at room
    omega
  refine ⟨ok.directory.sectors, fun i e live => ?_, fun lba k root file named => ?_, distinct, ?_⟩
  · have never := ok.readOnly e (List.mem_of_getElem? live.1)
    rw [live.2] at never
    cases never
  · obtain ⟨e, member, isName⟩ := parsed.complete length lba k root file named
    refine ⟨e, ?_, (parsed.sound e member).1, isName⟩
    rw [isTable]
    exact List.mem_append_left _ member
  · intro i j e e' other atI atJ named same
    have below := ok.children i j e e' other atI atJ
    rw [isTable] at atI atJ
    by_cases isRoot : e.parent = rootPath
    · have isRoot' : e'.parent = rootPath := same.1 ▸ isRoot
      have inOwn {k : Nat} {x : RootEntry} (found : (own ++ children)[k]? = some x) (root : x.parent = rootPath) :
          own[k]? = some x := by
        obtain here | beyond := Nat.lt_or_ge k own.length
        · rw [List.getElem?_append_left here] at found
          exact found
        · rw [List.getElem?_append_right beyond] at found
          exact absurd root (good x (List.mem_of_getElem? found)).2.1
      exact entriesDistinct_of_pairwise parsed.distinct i j e e' other (inOwn atI isRoot) (inOwn atJ isRoot')
        named same
    · exact below isRoot same

/-- No entry that the mount has read is named `NEW.TXT`. -/
theorem absent (distinct : SetsDistinct (blockfsMount d).1 d d) :
    ∀ x ∈ parsedEntries d, ¬ (x.parent = rootPath ∧ x.name = newTxt) := by
  obtain ⟨own, children, isTable, parsed, good⟩ := ok.parsed distinct
  intro x member same
  rw [isTable] at member
  obtain mine | child := List.mem_append.mp member
  · obtain ⟨-, lba, k, root, file, isName⟩ := parsed.sound x mine
    exact ok.noNewTxt lba k root file (isName.symm.trans same.2)
  · exact (good x child).2.1 same.1

theorem mount_eq : blockfsMount d = planExfatCreateTransaction (parseExfatVolume (bootRecord d) d).1
    ⟨(parseExfatVolume (bootRecord d) d).2, d⟩ := by
  have read := blockRead_eq_some.mpr ⟨ok.accepts, rfl⟩
  have present : (parseExfatBootSector (d.data 0)).present := ok.present
  simp only [blockfsMount, read, present]
  rfl

theorem unready (unready : (blockfsMount d).1.exfat.commit.ready = false) :
    (blockfsMount d).2 = ⟨parsedEntries d, d⟩ := by
  have ran : planExfatCreateTransaction (parseExfatVolume (bootRecord d) d).1
      ⟨(parseExfatVolume (bootRecord d) d).2, d⟩ = ((blockfsMount d).1, (blockfsMount d).2) := ok.mount_eq.symm
  have size := congrArg Mount.blockSize (boot_parseExfatVolume (bootRecord d) d)
  obtain ⟨p, c, isM⟩ := planExfatCreateTransaction_record ran
  rw [ok.parsedEntries_eq]
  refine planExfatCreateTransaction_unready ran (parseExfatVolume_fresh _ d).1 size ok.io.writable unready
    fun ready fits => ?_
  have made := planTransaction_ready (m := (parseExfatVolume (bootRecord d) d).1) (d := d) (by
    rw [isM] at ready
    exact ready)
  have plan := parseExfatVolume_plan rfl made.entriesReady
  have planned : MountPlan (blockfsMount d).1 d := by
    rw [isM] at fits ⊢
    exact ⟨plan.congr rfl rfl rfl, made.congr rfl rfl rfl, fits⟩
  exact planned.apart ok.ground

end Bootable

theorem planDevice_data_other {t entries} (planned : planDevice t entries d = some d') (bitmap : lba ≠ t.bitmapLba)
    (fat : lba ≠ t.fatLba) (directory : lba ≠ t.directoryLba) : d'.data lba = d.data lba := by
  obtain ⟨fatImage, -, rfl⟩ := Option.map_eq_some_iff.mp planned
  rw [Device.put_data_other directory, Device.put_data_other fat, Device.put_data_other bitmap]

section Commit

variable {fs : Fs} (ground : Ground m d) (done : MountDone m d entries fs)

include ground done

/-- The mount's edit of the directory: the set of `NEW.TXT` is written full and then brought down to
    size zero. -/
theorem MountDone.dirEdit (views : NewFileViews m d d') (room : entries.length < maxRootEntries)
    (sectors : ∀ lba, RootSector m d lba → SectorOk (d.data lba)) :
    ∃ z, DirEdit m d d (mountedFs m entries d').dev m.exfat.transaction.directoryLba z ∧
      SetAt ((mountedFs m entries d').dev.data m.exfat.transaction.directoryLba) (z * 32) newTxt
        (m.newClusters.headD 0) 0 := by
  rw [mountedFs, if_neg (Nat.not_le.mpr room)]
  exact done.resizedEdit ground views sectors

theorem MountDone.foreign (foreign : Foreign m lba)
    (planned : planDevice m.exfat.transaction m.exfat.createPlan.entries d = some d') :
    (mountedFs m entries d').dev.data lba = d.data lba := by
  obtain ⟨isBitmap, -⟩ := done.planned.bitmapPlace ground
  have valid := (done.planned.threeFree ground).valid _ (done.planned.head_mem ground)
  obtain ⟨-, -, k, b, j, chain, within, bitmapLba⟩ := ground.place_spec valid
  have notDirectory : lba ≠ m.exfat.transaction.directoryLba := fun here =>
    foreign.root (here ▸ done.root ground : RootSector m d lba)
  have notBitmap : lba ≠ m.exfat.transaction.bitmapLba := by
    rw [isBitmap, bitmapLba]
    exact foreign.heap b j (exfatResolveCluster_valid chain) within
  have notFat : lba ≠ m.exfat.transaction.fatLba := by
    rw [← done.transaction.fat _ (done.planned.head_mem ground)]
    exact foreign.fat _ valid
  have kept := planDevice_data_other planned notBitmap notFat notDirectory
  unfold mountedFs
  split
  · exact kept
  · exact (Device.put_data_other notDirectory).trans kept

end Commit

/-! ## Sessions -/

/-- What holds from a mount of `d₀` up to the next reboot. -/
structure Session (m : Mount) (d₀ : Device) (fs : Fs) : Prop where
  isBoot : m.boot = (bootRecord d₀).boot
  ground : Ground m d₀
  behindBoot : 0 < m.exfat.fatOffset
  agree : SameReserved m d₀ fs.dev
  boot : fs.dev.data 0 = d₀.data 0
  names : Names m d₀ fs
  held : m.exfat.commit.ready → ∃ cells, Table m d₀ fs cells ∧ Sets fs

theorem Bootable.session (ok : Bootable d) (distinct : SetsDistinct (blockfsMount d).1 d d) :
    Session (blockfsMount d).1 d (blockfsMount d).2 := by
  have ground := ok.ground
  have names := ok.names distinct
  cases ready : (blockfsMount d).1.exfat.commit.ready with
  | false =>
    rw [ok.unready ready]
    refine ⟨ok.boot, ground, ok.behindBoot, ⟨.refl d, fun _ _ => rfl⟩, rfl, names, fun isReady => ?_⟩
    rw [ready] at isReady
    cases isReady
  | true =>
    have done := blockfsMount_ready (Prod.mk.eta.symm : blockfsMount d = (_, _)) ready ok.io.writable
    obtain ⟨d', planned, isFs⟩ := done.entered
    have views := done.views ground planned
    rw [done.enterNewFile_eq ground views ready] at isFs
    rw [isFs]
    have table := done.table ground views
    have sets := done.sets ground views
    have boot := done.foreign ground (foreign_boot ok.volume ok.behindBoot) planned
    obtain ⟨z, edit, set⟩ := done.dirEdit ground views ok.room ok.directory.sectors
    have entered : (mountedFs (blockfsMount d).1 (parsedEntries d) d').rootEntries =
        parsedEntries d ++ [newFileEntry (blockfsMount d).1] := by
      rw [mountedFs, if_neg (Nat.not_le.mpr ok.room)]
    have names' := names.create (e := newFileEntry (blockfsMount d).1) edit set plainName_newTxt rfl
      (ok.absent distinct) entered
    exact ⟨ok.boot, ground, ok.behindBoot, table.agree, boot, names', fun _ => ⟨_, table, sets⟩⟩

namespace Session

variable {fs : Fs} (session : Session m d₀ fs)

include session

/-- A call keeps a session going if its path is in the table or the table has room. -/
theorem op (op : FileOp)
    (room : (findExfatRootEntry fs.rootEntries op.path).isSome ∨ fs.rootEntries.length < maxRootEntries) :
    Session m d₀ (op.run m fs) := by
  have ground := session.ground
  cases ready : m.exfat.commit.ready with
  | false =>
    rw [op.run_unready ready]
    exact session
  | true =>
    obtain ⟨cells, table, sets⟩ := session.held ready
    have acts := op.run_acts ground ready table
    have names := session.names.acts ground table sets acts room
    obtain ⟨cells', steps⟩ := acts.reaches ground table
    have table' := table.steps ground steps
    have boot := Steps.foreign ground steps table (foreign_boot ground.vol session.behindBoot)
    exact ⟨session.isBoot, ground, session.behindBoot, table'.agree, boot.trans session.boot, names,
      fun _ => ⟨cells', table', Sets.steps ground steps table sets⟩⟩

theorem rootSector_eq : RootSector m d₀ = RootSector m fs.dev := by
  funext lba
  simp only [RootSector, session.agree.rootChain_eq session.ground.vol]

theorem setsDistinct : SetsDistinct m fs.dev fs.dev := by
  have distinct := session.names.sets
  unfold SetsDistinct at distinct ⊢
  rw [← session.rootSector_eq]
  exact distinct

theorem reboot (ok : Bootable fs.dev) : Session (blockfsMount fs.dev).1 fs.dev (blockfsMount fs.dev).2 := by
  have sameRecord : bootRecord fs.dev = bootRecord d₀ := by
    unfold bootRecord
    rw [session.boot]
  have same : m.boot = (blockfsMount fs.dev).1.boot := by
    rw [ok.boot, sameRecord]
    exact session.isBoot
  exact ok.session (session.setsDistinct.ofBoot same)

end Session

/-! ## Histories -/

/-- What can happen to a volume after its first mount. -/
inductive Event where
  | call (op : FileOp)
  /-- A fresh kernel mounts what is on the disk. -/
  | reboot

def Event.run (st : Mount × Fs) : Event → Mount × Fs
  | .call op => (st.1, op.run st.1 st.2)
  | .reboot => blockfsMount st.2.dev

/-- A reboot finds a disk whose mount keeps names apart; a call has its path in the table or finds room
    in it. -/
def Event.Allowed (st : Mount × Fs) : Event → Prop
  | .call op =>
    (findExfatRootEntry st.2.rootEntries op.path).isSome ∨ st.2.rootEntries.length < maxRootEntries
  | .reboot => Bootable st.2.dev

def AllAllowed : Mount × Fs → List Event → Prop
  | _, [] => True
  | st, event :: rest => event.Allowed st ∧ AllAllowed (event.run st) rest

/-- Names are apart, in the table and in the root directory on disk. -/
def NamesUnique (st : Mount × Fs) : Prop :=
  EntriesDistinct st.2.rootEntries ∧ SetsDistinct st.1 st.2.dev st.2.dev

theorem Session.run (session : Session st.1 d₀ st.2) (allowed : AllAllowed st events) :
    ∃ d₁, Session (events.foldl Event.run st).1 d₁ (events.foldl Event.run st).2 := by
  induction events generalizing st d₀ with
  | nil => exact ⟨d₀, session⟩
  | cons event rest ih =>
    obtain ⟨now, later⟩ := allowed
    cases event with
    | call op => exact ih (session.op op now) later
    | reboot => exact ih (session.reboot now) later

/-- Names stay apart in every history all of whose events are allowed. -/
theorem names_stay_unique {d : Device} (bootable : Bootable d) (distinct : SetsDistinct (blockfsMount d).1 d d)
    {events : List Event} (allowed : AllAllowed (blockfsMount d) events) :
    NamesUnique (events.foldl Event.run (blockfsMount d)) := by
  obtain ⟨d₁, session⟩ := (bootable.session distinct).run allowed
  exact ⟨session.names.entries, session.setsDistinct⟩

/-! ## Two histories of a small volume -/

instance (s : Sector) (k : Nat) : Decidable (FileSlot s k) :=
  inferInstanceAs (Decidable (k < 16 ∧ s.get (k * 32) = 0x85))

instance (s : Sector) : Decidable (SectorOk s) :=
  decidable_of_iff
    ((∀ k j : Fin 16, FileSlot s k → k < j → j ≤ k + secondaries s k → 0xc0 ≤ s.get (j * 32)) ∧
      ∀ k j : Fin 16, k < j → s.get (k * 32) = 0 → s.get (j * 32) = 0) <| by
    constructor
    · rintro ⟨inUse, ended⟩
      constructor
      · intro k j file later reach
        have small : j < 16 := by
          have := file.1
          unfold secondaries at reach
          omega
        exact inUse ⟨k, file.1⟩ ⟨j, small⟩ file later reach
      · intro k j later small
        exact ended ⟨k, by omega⟩ ⟨j, small⟩ later
    · intro ok
      exact ⟨fun k j => ok.inUse k j, fun k j later => ok.ended k j later j.isLt⟩

/-- What is left to check of a volume whose root directory is one sector. -/
def bootTest (m : Mount) (d : Device) : Bool :=
  singleClusters m d && m.exfat.rootDirCluster != m.exfat.allocationBitmap.cluster &&
  m.sectorsPerCluster == 1 && decide (0 < m.exfat.fatOffset) &&
  decide (SectorOk (d.data (heapSector m m.exfat.rootDirCluster 0))) &&
  decide (∀ k : Fin 16, FileSlot (d.data (heapSector m m.exfat.rootDirCluster 0)) k →
    setName (d.data (heapSector m m.exfat.rootDirCluster 0)) k ≠ newTxt) &&
  decide ((parsedEntries d).length < maxRootEntries) &&
  (parsedEntries d).all fun e => e.parent == rootPath

theorem SingleClusters.rootSector (single : SingleClusters m d)
    (one : m.sectorsPerCluster = 1) (root : RootSector m d lba) :
    lba = heapSector m m.exfat.rootDirCluster 0 := by
  obtain ⟨i, b, j, chain, inside, rfl⟩ := root
  obtain ⟨-, rfl⟩ := SingleClusters.resolve_single single.rootEnd chain
  obtain rfl : j = 0 := by omega
  rfl

theorem Bootable.of_test (passed : bootTest (blockfsMount d).1 d)
    (healthy : d.fault = fun _ => false) : Bootable d := by
  simp only [bootTest, Bool.and_eq_true, bne_iff_ne, beq_iff_eq, decide_eq_true_eq, List.all_eq_true]
    at passed
  obtain ⟨⟨⟨⟨⟨⟨⟨tested, other⟩, one⟩, behind⟩, sector⟩, fresh⟩, room⟩, own⟩ := passed
  have single : SingleClusters _ d := .of_test tested healthy
  have zero {q lba : Nat} (found : rootSectorAt (blockfsMount d).1 d q = some lba) : q = 0 := by
    obtain ⟨b, chain, -⟩ := Option.map_eq_some_iff.mp found
    obtain ⟨isZero, -⟩ := SingleClusters.resolve_single single.rootEnd chain
    rw [one, Nat.div_one] at isZero
    exact isZero
  refine ⟨single.wellFormed, single.io, single.apart other, by rw [one]; decide, behind, ⟨?_, ?_, ?_⟩, ?_,
    room, ?_⟩
  · intro i i' b chain chain'
    obtain ⟨rfl, -⟩ := SingleClusters.resolve_single single.rootEnd chain
    exact (SingleClusters.resolve_single single.rootEnd chain').1.symm
  · intro lba root
    rw [single.rootSector one root]
    exact sector
  · intro q q' lba lba' k k' found found' later
    have isZero := zero found'
    omega
  · intro lba k root file
    rw [single.rootSector one root] at file ⊢
    exact fresh ⟨k, file.1⟩ file
  · intro i j e e' _ atI _ notRoot
    exact absurd (own e (List.mem_of_getElem? atI)) notRoot

/-- The sector of a one-sector root directory holds no two sets of one name. -/
theorem SingleClusters.setsDistinct (single : SingleClusters m d) (one : m.sectorsPerCluster = 1)
    (apart : ∀ k k' : Fin 16, FileSlot (d.data (heapSector m m.exfat.rootDirCluster 0)) k →
      FileSlot (d.data (heapSector m m.exfat.rootDirCluster 0)) k' →
      setName (d.data (heapSector m m.exfat.rootDirCluster 0)) k =
        setName (d.data (heapSector m m.exfat.rootDirCluster 0)) k' → k = k') :
    SetsDistinct m d d := by
  intro lba lba' k k' root root' file file' sameName
  obtain rfl := single.rootSector one root
  obtain rfl := single.rootSector one root'
  have same := apart ⟨k, file.1⟩ ⟨k', file'.1⟩ file file' sameName
  exact ⟨rfl, Fin.mk.inj same⟩

/-- The root directory of the plain volume has only its bitmap entry. -/
theorem plainDevice_bootable :
    Bootable plainDevice ∧ SetsDistinct (blockfsMount plainDevice).1 plainDevice plainDevice := by
  have passed : bootTest (blockfsMount plainDevice).1 plainDevice := by decide +kernel
  have empty : ∀ k : Fin 16, ¬ FileSlot (plainDevice.data (heapSector (blockfsMount plainDevice).1
      (blockfsMount plainDevice).1.exfat.rootDirCluster 0)) k := by decide +kernel
  have single : SingleClusters (blockfsMount plainDevice).1 plainDevice := .of_test (by decide +kernel) rfl
  have one : (blockfsMount plainDevice).1.sectorsPerCluster = 1 := by decide +kernel
  exact ⟨.of_test passed rfl, single.setsDistinct one fun k _ file => absurd file (empty k)⟩

/-- `/B`. -/
def pathB : Bytes := [0x2f, 0x42]

/-- The first session takes the file that the mount made for its own, so that the next mount can make it
    anew. -/
def sharedVolume : List Event := [.call (.truncate pathB 7), .reboot, .call (.write pathB 0 [1])]

set_option maxRecDepth 100000 in
theorem sharedVolume_facts :
    (blockfsMount plainDevice).2.rootEntries.length < maxRootEntries ∧
    bootTest (blockfsMount ((FileOp.truncate pathB 7).run (blockfsMount plainDevice).1
        (blockfsMount plainDevice).2).dev).1
      ((FileOp.truncate pathB 7).run (blockfsMount plainDevice).1 (blockfsMount plainDevice).2).dev ∧
    (findExfatRootEntry (blockfsMount ((FileOp.truncate pathB 7).run (blockfsMount plainDevice).1
      (blockfsMount plainDevice).2).dev).2.rootEntries pathB).isSome := by
  decide +kernel

theorem allAllowed_reboot (room : st.2.rootEntries.length < maxRootEntries)
    (bootable : Bootable (op.run st.1 st.2).dev)
    (found : (findExfatRootEntry (blockfsMount (op.run st.1 st.2).dev).2.rootEntries op'.path).isSome) :
    AllAllowed st [.call op, .reboot, .call op'] :=
  ⟨.inr room, bootable, .inl found, trivial⟩

theorem sharedVolume_allowed : AllAllowed (blockfsMount plainDevice) sharedVolume := by
  obtain ⟨bootable, distinct⟩ := plainDevice_bootable
  obtain ⟨room, passed, found⟩ := sharedVolume_facts
  have session := (bootable.session distinct).op (.truncate pathB 7) (.inr room)
  have healthy := session.agree.shape.fault
  exact allAllowed_reboot room (.of_test passed healthy) found

theorem names_stay_unique_sharedVolume :
    NamesUnique (sharedVolume.foldl Event.run (blockfsMount plainDevice)) :=
  names_stay_unique plainDevice_bootable.1 plainDevice_bootable.2 sharedVolume_allowed

set_option maxRecDepth 100000 in
theorem plainDevice_rebooted :
    (blockfsMount (blockfsMount plainDevice).2.dev).2.rootEntries.map (fun e => (e.parent, e.name)) =
      [(rootPath, newTxt), (rootPath, newTxt)] := by
  decide +kernel

theorem not_namesUnique (clash : ¬ EntriesDistinct (blockfsMount st.2.dev).2.rootEntries) :
    ¬ NamesUnique ([Event.reboot].foldl Event.run st) :=
  fun unique => clash unique.1

theorem not_entriesDistinct {parent name : Bytes} (named : name ≠ [])
    (two : entries.map (fun e => (e.parent, e.name)) = [(parent, name), (parent, name)]) :
    ¬ EntriesDistinct entries := by
  intro distinct
  obtain ⟨e, rest, rfl, isNew, hrest⟩ := List.map_eq_cons_iff.mp two
  obtain ⟨e', rest', rfl, isNew', -⟩ := List.map_eq_cons_iff.mp hrest
  obtain ⟨isParent, isName⟩ := Prod.mk.inj isNew
  have sameKey := isNew.trans isNew'.symm
  exact distinct 0 1 e e' (by decide) rfl rfl (by rw [isName]; exact named) (Prod.mk.inj sameKey)

/-- Mounted a second time, the volume has two files of one name. -/
theorem names_clash_after_reboot :
    ∃ (d : Device) (events : List Event), SetsDistinct (blockfsMount d).1 d d ∧
      ¬ NamesUnique (events.foldl Event.run (blockfsMount d)) := by
  refine ⟨plainDevice, [.reboot], plainDevice_bootable.2, not_namesUnique ?_⟩
  exact not_entriesDistinct (by decide) plainDevice_rebooted

end TangPingOS
