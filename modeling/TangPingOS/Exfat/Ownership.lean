import TangPingOS.Exfat.Mounted
import TangPingOS.Exfat.Runs
import TangPingOS.Exfat.SmallVolume

/-! # Cluster ownership

In every state a run of file operations reaches, the FAT chains of the writable
files are disjoint, as long as their capacities say, and made of clusters that
were free before the mount.
-/

namespace TangPingOS

open Lib

variable {d d₀ : Device} {fs : Fs} {cs : List Nat} {m : Mount} {capacity i : Nat} {cells : Nat → List Nat}

/-- The FAT chain from `cluster` on: follow words up to the one that is `0xffffffff`. -/
def fatChain (m : Mount) (d : Device) : Nat → Nat → Option (List Nat)
  | 0, _ => none
  | fuel + 1, cluster =>
    if !exfatClusterValid m cluster then none
    else if fatWord m d cluster = 0xffffffff then some [cluster]
    else (fatChain m d fuel (fatWord m d cluster)).map (cluster :: ·)

/-- The chain of a file. No chain without a cycle is longer than the heap. -/
def RootEntry.fatChain (m : Mount) (d : Device) (e : RootEntry) : Option (List Nat) :=
  TangPingOS.fatChain m d m.exfat.clusterCount e.firstCluster

/-- The writable file at index `i` of the table. -/
def Fs.Live (fs : Fs) (i : Nat) (e : RootEntry) : Prop :=
  fs.rootEntries[i]? = some e ∧ e.writable

/-- Every writable file has a chain of its own, of the length its capacity says, over clusters
    that were free on `d₀`. -/
structure ClustersOwned (m : Mount) (d₀ : Device) (fs : Fs) : Prop where
  chain : ∀ i e, fs.Live i e → ∃ cs, e.fatChain m fs.dev = some cs ∧
    cs.length = e.capacity / m.clusterSize ∧ 1 ≤ cs.length ∧ cs.length ≤ 3 ∧
    ∀ c ∈ cs, readExfatBitmapBit m d₀ c = some false
  disjoint : ∀ i j e e' cs cs', i ≠ j → fs.Live i e → fs.Live j e' →
    e.fatChain m fs.dev = some cs → e'.fatChain m fs.dev = some cs' → cs.Disjoint cs'

theorem fatChain_eq (linked : Linked (fatWord m d) fatEnd (c :: rest))
    (valid : ∀ b ∈ c :: rest, exfatClusterValid m b) (enough : rest.length < fuel) :
    fatChain m d fuel c = some (c :: rest) := by
  induction rest generalizing c fuel with
  | nil =>
    obtain ⟨fuel, rfl⟩ : ∃ k, fuel = k + 1 := ⟨fuel - 1, by omega⟩
    have ends : fatWord m d c = 0xffffffff := linked.1
    rw [fatChain, valid c List.mem_cons_self, Bool.not_true, if_neg Bool.false_ne_true, if_pos ends]
  | cons b rest ih =>
    obtain ⟨fuel, rfl⟩ : ∃ k, fuel = k + 1 := ⟨fuel - 1, by omega⟩
    have goes : fatWord m d c = b := linked.1
    have inner : b ≠ 0xffffffff := by
      obtain ⟨_, _, below⟩ := exfatClusterValid_iff.mp (valid b (by simp))
      have bounded : m.clusterEnd < 2 ^ 32 := Nat.mod_lt _ (by norm_num)
      omega
    rw [fatChain, valid c List.mem_cons_self, Bool.not_true, if_neg Bool.false_ne_true, goes,
      if_neg inner, ih linked.2 (fun a member => valid a (List.mem_cons_of_mem c member))
        (by simp only [List.length_cons] at enough; omega), Option.map_some]

theorem Volume.length_le (vol : Volume m d) (distinct : cs.Nodup) (valid : ∀ c ∈ cs, exfatClusterValid m c) :
    cs.length ≤ m.exfat.clusterCount := by
  have inside : cs ⊆ List.range' 2 m.exfat.clusterCount := fun c member => by
    obtain ⟨low, high⟩ := vol.valid_iff.mp (valid c member)
    exact List.mem_range'_1.mpr ⟨low, by omega⟩
  simpa using (List.subperm_of_subset distinct inside).length_le

/-- The chain of a writable file is the list of clusters its index holds. -/
theorem Table.fatChain_eq (table : Table m d₀ fs cells) (ground : Ground m d₀)
    (live : fs.Live i e) : e.fatChain m fs.dev = some (cells i) := by
  have ok := table.entries i e live.1 live.2
  have linked := table.owns.linked i
  have enough := (table.volume ground).length_le (table.owns.nodup i) ok.valid
  have first := ok.first
  have valid := ok.valid
  generalize cells i = cs at linked enough first valid
  obtain ⟨rest, rfl⟩ := List.head?_eq_some_iff.mp first
  exact TangPingOS.fatChain_eq linked valid enough

theorem Table.clustersOwned (table : Table m d₀ fs cells) (ground : Ground m d₀) : ClustersOwned m d₀ fs where
  chain i e live := by
    have ok := table.entries i e live.1 live.2
    refine ⟨cells i, table.fatChain_eq ground live, ?_, ?_, ok.few, fun c member => ?_⟩
    · rw [ok.capacity, Nat.mul_div_cancel _ ground.vol.clusterSize_pos]
    · have present : cells i ≠ [] := fun empty => by
        have first := ok.first
        rw [empty] at first
        cases first
      exact List.length_pos_iff.mpr present
    · rw [ground.readBit ⟨.refl d₀, fun _ _ => rfl⟩ (ok.valid c member), ok.unused c member]
  disjoint i j e e' cs cs' other live live' isChain isChain' := by
    rw [table.fatChain_eq ground live, Option.some.injEq] at isChain
    rw [table.fatChain_eq ground live', Option.some.injEq] at isChain'
    subst isChain isChain'
    exact fun c member => table.owns.apart i j other c member

/-- What a run of file operations relies on: a healthy, well-formed volume whose directory and
    bitmap share no cluster and whose clusters are small enough for 64-bit capacities. -/
structure Mounted (d : Device) (m : Mount) (fs : Fs) : Prop where
  mounted : blockfsMount d = (m, fs)
  ready : m.exfat.commit.ready
  wellFormed : WellFormed m d
  io : IoSucceeds m d
  apart : ∀ i j c, rootChain m d i = some c → bitmapChain m d j ≠ some c
  fits : 3 * m.clusterSize < 2 ^ 64

theorem Mounted.done (start : Mounted d m fs) : MountDone m d (parsedEntries d) fs :=
  blockfsMount_ready start.mounted start.ready start.io.writable

theorem Mounted.ground (start : Mounted d m fs) : Ground m d :=
  start.done.ground start.wellFormed start.io start.apart start.fits

theorem Mounted.table (start : Mounted d m fs) (ops : List FileOp) :
    ∃ cells, Table m d (runOps m fs ops) cells := by
  have ground := start.ground
  obtain ⟨d', views, isFs⟩ := start.done.start ground start.ready
  have table := start.done.table ground views
  rw [← isFs] at table
  obtain ⟨cells, steps⟩ := runOps_reaches ground start.ready ops table
  exact ⟨cells, table.steps ground steps⟩

/-- Cluster ownership in every state a run reaches. -/
theorem clusters_owned {d : Device} {m : Mount} {fs : Fs} (mounted : blockfsMount d = (m, fs))
    (ready : m.exfat.commit.ready = true) (wellFormed : WellFormed m d) (io : IoSucceeds m d)
    (apart : ∀ i j c, rootChain m d i = some c → bitmapChain m d j ≠ some c)
    (fits : 3 * m.clusterSize < 2 ^ 64) (ops : List FileOp) :
    ClustersOwned m d (runOps m fs ops) := by
  have start : Mounted d m fs := ⟨mounted, ready, wellFormed, io, apart, fits⟩
  obtain ⟨cells, table⟩ := start.table ops
  exact table.clustersOwned start.ground

/-- A volume whose directory and bitmap are single clusters meets all of this if it passes a test. -/
def mountTest (d : Device) : Bool :=
  (blockfsMount d).1.exfat.commit.ready && singleClusters (blockfsMount d).1 d &&
  (blockfsMount d).1.exfat.rootDirCluster != (blockfsMount d).1.exfat.allocationBitmap.cluster &&
  decide (3 * (blockfsMount d).1.clusterSize < 2 ^ 64)

theorem Mounted.of_test (passed : mountTest d)
    (healthy : d.fault = fun _ => false) : Mounted d (blockfsMount d).1 (blockfsMount d).2 := by
  simp only [mountTest, Bool.and_eq_true, bne_iff_ne, decide_eq_true_eq] at passed
  obtain ⟨⟨⟨ready, tested⟩, other⟩, fits⟩ := passed
  have single : SingleClusters _ d := .of_test tested healthy
  exact ⟨Prod.mk.eta.symm, ready, single.wellFormed, single.io, single.apart other, fits⟩

/-- A volume of sixteen clusters with nothing but its directory and its bitmap. -/
def plainDevice : Device :=
  smallDevice 1 2 16 2 0 sixteenClusters_fit
    [(1, sectorOf [(8, le32 fatEnd), (12, le32 fatEnd)]), (2, sectorOf [(0, bitmapEntryOf 3 2)]),
      (3, sectorOf [(0, [0x03])])]

set_option maxRecDepth 100000 in
theorem plainDevice_mounted : Mounted plainDevice (blockfsMount plainDevice).1 (blockfsMount plainDevice).2 :=
  .of_test (by decide +kernel) rfl

/-- The conditions can be met: create, extend, delete and create again on a plain volume. -/
theorem clusters_owned_plain :
    Mounted plainDevice (blockfsMount plainDevice).1 (blockfsMount plainDevice).2 ∧
    ClustersOwned (blockfsMount plainDevice).1 plainDevice
      (runOps (blockfsMount plainDevice).1 (blockfsMount plainDevice).2
        [.write [0x2f, 0x41] 0 [1], .write [0x2f, 0x41] 600 [2], .unlink [0x2f, 0x41],
          .truncate [0x2f, 0x42] 7]) :=
  ⟨plainDevice_mounted, clusters_owned plainDevice_mounted.mounted plainDevice_mounted.ready
    plainDevice_mounted.wellFormed plainDevice_mounted.io plainDevice_mounted.apart
    plainDevice_mounted.fits _⟩

/-! ## What the two extra conditions are for -/

/-- Capacity and chain of the writable file at index `i`. -/
def Fs.fileAt (m : Mount) (fs : Fs) (i : Nat) : Option (Nat × List Nat) :=
  (fs.rootEntries[i]?).bind fun e =>
    if e.writable then (e.fatChain m fs.dev).map fun cs => (e.capacity, cs) else none

theorem Fs.fileAt_spec (found : fs.fileAt m i = some (capacity, cs)) :
    ∃ e, fs.Live i e ∧ e.fatChain m fs.dev = some cs ∧ e.capacity = capacity := by
  obtain ⟨e, atIndex, found⟩ := Option.bind_eq_some_iff.mp found
  split at found
  · rename_i writable
    obtain ⟨cs', isChain, same⟩ := Option.map_eq_some_iff.mp found
    rw [Prod.mk.injEq] at same
    exact ⟨e, ⟨atIndex, writable⟩, same.2 ▸ isChain, same.1⟩
  · cases found

theorem ClustersOwned.fileAt (owned : ClustersOwned m d₀ fs) (found : fs.fileAt m i = some (capacity, cs)) :
    cs.length = capacity / m.clusterSize ∧ ∀ c ∈ cs, readExfatBitmapBit m d₀ c = some false := by
  obtain ⟨e, live, isChain, rfl⟩ := Fs.fileAt_spec found
  obtain ⟨cs', isChain', length, _, _, free⟩ := owned.chain i e live
  rw [isChain, Option.some.injEq] at isChain'
  exact isChain' ▸ ⟨length, free⟩

/-- The root directory doubles as the allocation bitmap. Its second slot is a deleted entry whose
    byte 33 marks the clusters 266 to 273 as used; of the clusters from 10 on only 266 has a zero
    FAT word. -/
def overlappingDevice : Device :=
  smallDevice 3 4 300 2 0 (by decide)
    [(1, ⟨fun _ => 0xff⟩), (2, ⟨fun _ => 0xff⟩),
      (3, (⟨fun _ => 0xff⟩ : Sector).write 40 (le32 0)),
      (4, sectorOf [(0, bitmapEntryOf 2 38), (33, [0xff])])]

/-- Clusters of 2⁶³ bytes: the capacity of three of them is 2⁶³ in 64 bits. -/
def hugeClustersDevice : Device :=
  smallDevice 1 2 6 2 54 (by decide)
    [(1, sectorOf [(8, le32 fatEnd), (12, le32 fatEnd)]), (2, sectorOf [(0, bitmapEntryOf 3 1)]),
      (2 + 2 ^ 54, sectorOf [(0, [0x03])])]

set_option maxRecDepth 100000 in
theorem overlapping_run :
    (blockfsMount overlappingDevice).1.exfat.commit.ready ∧
    singleClusters (blockfsMount overlappingDevice).1 overlappingDevice ∧
    3 * (blockfsMount overlappingDevice).1.clusterSize < 2 ^ 64 ∧
    (runOps (blockfsMount overlappingDevice).1 (blockfsMount overlappingDevice).2
      [.write [0x2f, 0x41] 0 [1]]).fileAt (blockfsMount overlappingDevice).1 1 = some (512, [266]) ∧
    readExfatBitmapBit (blockfsMount overlappingDevice).1 overlappingDevice 266 = some true := by
  decide +kernel

set_option maxRecDepth 100000 in
theorem hugeClusters_run :
    (blockfsMount hugeClustersDevice).1.exfat.commit.ready ∧
    singleClusters (blockfsMount hugeClustersDevice).1 hugeClustersDevice ∧
    (blockfsMount hugeClustersDevice).1.exfat.rootDirCluster ≠
      (blockfsMount hugeClustersDevice).1.exfat.allocationBitmap.cluster ∧
    (runOps (blockfsMount hugeClustersDevice).1 (blockfsMount hugeClustersDevice).2 []).fileAt
      (blockfsMount hugeClustersDevice).1 0 = some (2 ^ 63, [4, 5, 6]) ∧
    (blockfsMount hugeClustersDevice).1.clusterSize = 2 ^ 63 := by
  decide +kernel

/-- Without either condition ownership fails on a well-formed volume: a file gets a cluster that
    was in use before the mount, or its capacity counts fewer clusters than its chain has. -/
theorem clusters_owned_needs_both :
    (∃ d m fs ops, blockfsMount d = (m, fs) ∧ m.exfat.commit.ready = true ∧ WellFormed m d ∧
      IoSucceeds m d ∧ 3 * m.clusterSize < 2 ^ 64 ∧ ¬ ClustersOwned m d (runOps m fs ops)) ∧
    (∃ d m fs ops, blockfsMount d = (m, fs) ∧ m.exfat.commit.ready = true ∧ WellFormed m d ∧
      IoSucceeds m d ∧ (∀ i j c, rootChain m d i = some c → bitmapChain m d j ≠ some c) ∧
      ¬ ClustersOwned m d (runOps m fs ops)) := by
  refine ⟨⟨overlappingDevice, _, _, [.write [0x2f, 0x41] 0 [1]], Prod.mk.eta.symm, ?_⟩,
    ⟨hugeClustersDevice, _, _, [], Prod.mk.eta.symm, ?_⟩⟩
  · obtain ⟨ready, tested, fits, file, used⟩ := overlapping_run
    have single : SingleClusters _ overlappingDevice := .of_test tested rfl
    refine ⟨ready, single.wellFormed, single.io, fits, fun owned => ?_⟩
    have free := (owned.fileAt file).2 266 (by simp)
    rw [used] at free
    cases free
  · obtain ⟨ready, tested, other, file, size⟩ := hugeClusters_run
    have single : SingleClusters _ hugeClustersDevice := .of_test tested rfl
    refine ⟨ready, single.wellFormed, single.io, single.apart other, fun owned => ?_⟩
    have length := (owned.fileAt file).1
    rw [size] at length
    norm_num at length

/-- The transactions of a create and of an extend have at most four sectors, and a slot for each of them, on any
    device. -/
theorem create_and_extend_fit (m : Mount) (d searched : Device) (requested : Nat) (clusters : List Nat)
    (found : findExfatFreeClusterRun m searched requested = some clusters) :
    (∀ dirLba dirOffset entries, Fits m d (stageCreate m d clusters dirLba dirOffset entries)
      fun get => stageCreateWith get m d clusters dirLba dirOffset entries) ∧
    ∀ last, Fits m d (stageExtend m d last clusters) fun get => stageExtendWith get m d last clusters := by
  obtain ⟨first, few, rfl⟩ := findExfatFreeClusterRun_row found
  have start (sectors : Finset Nat) : Transaction.Within d [] sectors :=
    ⟨Transaction.staged_nil, fun lba held => absurd held List.not_mem_nil⟩
  constructor
  · intro dirLba dirOffset entries
    obtain ⟨sectors, small, extra, run⟩ := run_few_sectors m d first dirLba few
    refine ⟨sectors, small, fun tx staged => ?_, fun get agrees => ?_⟩
    · obtain ⟨tx₁, chain, mutated⟩ := Option.bind_eq_some_iff.mp staged
      have within := ((start sectors).stageChain run chain).mutate extra mutated
      exact ⟨within.1.distinct, within.2⟩
    · simp only [stageCreateWith, stageCreate, stageChainWith_eq small agrees (start sectors) run]
      exact Option.bind_congr fun tx chain =>
        mutateWith_eq small agrees ((start sectors).stageChain run chain) extra
  · intro last
    obtain ⟨sectors, small, extra, run⟩ := run_few_sectors m d first (fatSector m last) few
    refine ⟨sectors, small, fun tx staged => ?_, fun get agrees => ?_⟩
    · obtain ⟨tx₁, linked, chain⟩ := Option.bind_eq_some_iff.mp staged
      have within := ((start sectors).word extra linked).stageChain run chain
      exact ⟨within.1.distinct, within.2⟩
    · simp only [stageExtendWith, stageExtend, writeWordWith_eq small agrees (start sectors) extra]
      exact Option.bind_congr fun tx linked =>
        stageChainWith_eq small agrees ((start sectors).word extra linked) run

set_option maxRecDepth 100000 in
/-- A create of three clusters stages the sectors of the bitmap, of the FAT and of the directory. -/
theorem create_and_extend_fit_plain :
    findExfatFreeClusterRun (blockfsMount plainDevice).1 plainDevice 3 = some [4, 5, 6] ∧
      (stageCreate (blockfsMount plainDevice).1 plainDevice [4, 5, 6] 2 32 .zero).map Transaction.lbas
        = some [3, 1, 2] ∧
      Fits (blockfsMount plainDevice).1 plainDevice
        (stageCreate (blockfsMount plainDevice).1 plainDevice [4, 5, 6] 2 32 .zero)
        fun get => stageCreateWith get (blockfsMount plainDevice).1 plainDevice [4, 5, 6] 2 32 .zero := by
  have found : findExfatFreeClusterRun (blockfsMount plainDevice).1 plainDevice 3 = some [4, 5, 6] := by
    decide +kernel
  exact ⟨found, by decide +kernel, (create_and_extend_fit _ plainDevice plainDevice 3 _ found).1 2 32 .zero⟩

end TangPingOS
