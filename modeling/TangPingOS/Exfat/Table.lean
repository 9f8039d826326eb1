import TangPingOS.Exfat.Searches

/-! # The table of root entries and the clusters it owns

The invariant that ties the in-memory table to the FAT: every writable entry
holds a chain of its own, over clusters that were free before the mount, and its
directory set lies in a sector of the root directory.
-/

namespace TangPingOS

open Lib

variable {d₀ : Device} {m : Mount} {c first i n : Nat}

/-- What a writable entry says of its file. -/
structure EntryOk (m : Mount) (d₀ : Device) (e : RootEntry) (cs : List Nat) : Prop where
  first : cs.head? = some e.firstCluster
  few : cs.length ≤ 3
  capacity : e.capacity = cs.length * m.clusterSize
  size : e.size ≤ e.capacity
  valid : ∀ c ∈ cs, exfatClusterValid m c
  unused : ∀ c ∈ cs, bitAt d₀ (place m d₀ c) = false
  flags : e.streamFlags = 0
  parent : e.parent = rootPath
  file : e.isDir = false
  directory : ∃ i b j, rootChain m d₀ i = some b ∧ j < m.sectorsPerCluster ∧
    e.directoryLba = heapSector m b j
  offset : e.directoryByteOffset + 96 ≤ 512
  slot : e.directoryByteOffset % 32 = 0

/-- The clusters held by the entries of the table, one list an index. -/
structure Table (m : Mount) (d₀ : Device) (fs : Fs) (cells : Nat → List Nat) : Prop where
  agree : SameReserved m d₀ fs.dev
  used : ∀ c, exfatClusterValid m c → bitAt d₀ (place m d₀ c) →
    bitAt fs.dev (place m d₀ c)
  owns : Owns (fatWord m fs.dev) fatEnd cells
  entries : ∀ i e, fs.rootEntries[i]? = some e → e.writable → EntryOk m d₀ e (cells i)
  idle : ∀ i, (∀ e, fs.rootEntries[i]? = some e → e.writable = false) → cells i = []

namespace Table

variable {fs : Fs} {cells : Nat → List Nat} (table : Table m d₀ fs cells)

include table

theorem volume (ground : Ground m d₀) : Volume m fs.dev :=
  table.agree.volume ground.vol

/-- An index that holds clusters belongs to a writable entry. -/
theorem owner (member : c ∈ cells i) :
    ∃ e, fs.rootEntries[i]? = some e ∧ e.writable ∧ EntryOk m d₀ e (cells i) := by
  by_contra none
  have idle := table.idle i fun e found => by
    by_contra writable
    have isWritable : e.writable := by simpa using writable
    exact none ⟨e, found, isWritable, table.entries i e found isWritable⟩
  rw [idle] at member
  cases member

theorem cell_valid (member : c ∈ cells i) : exfatClusterValid m c := by
  obtain ⟨_, _, _, ok⟩ := table.owner member
  exact ok.valid c member

theorem cell_unused (member : c ∈ cells i) : bitAt d₀ (place m d₀ c) = false := by
  obtain ⟨_, _, _, ok⟩ := table.owner member
  exact ok.unused c member

/-- No file holds a cluster of the directory or of the bitmap. -/
theorem cell_not_reserved (ground : Ground m d₀) (member : c ∈ cells i) : ¬ Reserved m d₀ c := by
  intro reserved
  have used := (ground.reserved_used reserved).2
  rw [table.cell_unused member] at used
  cases used

theorem cell_linked (member : c ∈ cells i) : fatWord m fs.dev c ≠ 0 := by
  obtain ⟨before, after, split, linked⟩ := (table.owns.linked i).suffix member
  rw [linked.1]
  cases after with
  | nil => decide
  | cons b rest =>
    have valid := table.cell_valid (i := i) (c := b) (by rw [split]; simp)
    obtain ⟨_, low, _⟩ := exfatClusterValid_iff.mp valid
    simp only [List.headD_cons]
    omega

theorem free_not_cell (free : Free m d₀ fs.dev c) (i : Nat) :
    c ∉ cells i := fun member => table.cell_linked member free.unlinked

theorem free_unused (free : Free m d₀ fs.dev c) : bitAt d₀ (place m d₀ c) = false := by
  by_contra used
  have still := table.used c free.valid (by simpa using used)
  rw [free.clear] at still
  cases still

theorem free_not_reserved (ground : Ground m d₀) (free : Free m d₀ fs.dev c) : ¬ Reserved m d₀ c := by
  intro reserved
  have used := (ground.reserved_used reserved).2
  rw [table.free_unused free] at used
  cases used

end Table

/-- Sectors of the root directory are heap sectors outside the bitmap. -/
theorem Ground.root_not_bitmap (ground : Ground m d₀)
    (chain : rootChain m d₀ i = some b) (j : Nat) : bitmapChain m d₀ j ≠ some b :=
  ground.apart i j b chain

/-- The sector of the bitmap with the bits `4096 * k` to `4096 * k + 4095`. -/
def bitmapLba (m : Mount) (d : Device) (k : Nat) : Nat :=
  let sectors := m.clusterSize / 512
  wrap64 (exfatClusterLba m ((bitmapChain m d (k / sectors)).getD 0) + k % sectors)

theorem locateExfatBitmapBit_lba (located : locateExfatBitmapBit m d c = some p) :
    p.lba = bitmapLba m d ((c - 2) / 4096) := by
  have whole : m.clusterSize = 512 * (m.clusterSize / 512) := by
    simp only [Mount.clusterSize, wrap64]
    omega
  simp only [locateExfatBitmapBit] at located
  split at located
  · cases located
  split at located
  · cases located
  rename_i b chain
  split at located
  · cases located
  cases located
  have rows : (c - 2) / 8 / m.clusterSize = (c - 2) / 4096 / (m.clusterSize / 512) := by
    rw [whole, ← Nat.div_div_eq_div_mul, Nat.div_div_eq_div_mul _ 8 512, ← whole]
  have columns : (c - 2) / 8 % m.clusterSize / 512 = (c - 2) / 4096 % (m.clusterSize / 512) := by
    rw [whole, Nat.mod_mul_right_div_self, Nat.div_div_eq_div_mul _ 8 512, ← whole]
  rw [rows] at chain
  simp only [bitmapLba, bitmapChain, chain, columns, Option.getD_some]

theorem Ground.place_lba (ground : Ground m d₀) (valid : exfatClusterValid m c) :
    (place m d₀ c).lba = bitmapLba m d₀ ((c - 2) / 4096) :=
  locateExfatBitmapBit_lba (ground.locate ⟨.refl d₀, fun _ _ => rfl⟩ valid)

theorem place_lba_eq (ground : Ground m d₀) (valid : exfatClusterValid m c) (valid' : exfatClusterValid m c')
    (same : (c - 2) / 4096 = (c' - 2) / 4096) : (place m d₀ c).lba = (place m d₀ c').lba := by
  rw [ground.place_lba valid, ground.place_lba valid', same]

theorem mem_map_editPatches {set edits} : lba ∈ (editPatches m d₀ set edits).map Prod.fst ↔
      ∃ e ∈ edits, lba = (place m d₀ e.1).lba ∨ lba = fatSector m e.1 := by
  induction edits with
  | nil => simp [editPatches]
  | cons edit rest ih =>
    obtain ⟨c, v⟩ := edit
    simp only [editPatches, List.map_cons, List.mem_cons, ih]
    constructor
    · rintro (here | here | ⟨e, member, later⟩)
      · exact ⟨(c, v), .inl rfl, .inl here⟩
      · exact ⟨(c, v), .inl rfl, .inr here⟩
      · exact ⟨e, .inr member, later⟩
    · rintro ⟨e, rfl | member, here | here⟩
      · exact .inl here
      · exact .inr (.inl here)
      · exact .inr (.inr ⟨e, member, .inl here⟩)
      · exact .inr (.inr ⟨e, member, .inr here⟩)

/-- The bits and words of up to three consecutive clusters lie in at most three sectors: a run
    that crosses a sector of the FAT crosses none of the bitmap. -/
theorem run_sectors (m : Mount) (d : Device) (first : Nat) (few : n ≤ 3) :
    ∃ x y z, ∀ c ∈ List.range' first n,
      (bitmapLba m d ((c - 2) / 4096) = x ∨ bitmapLba m d ((c - 2) / 4096) = y ∨
        bitmapLba m d ((c - 2) / 4096) = z) ∧
      (fatSector m c = x ∨ fatSector m c = y ∨ fatSector m c = z) := by
  by_cases crosses : first * 4 / 512 = (first + n - 1) * 4 / 512
  · refine ⟨fatSector m first, bitmapLba m d ((first - 2) / 4096), bitmapLba m d ((first + n - 1 - 2) / 4096),
      fun c member => ?_⟩
    rw [List.mem_range'_1] at member
    constructor
    · rcases (by omega : (c - 2) / 4096 = (first - 2) / 4096 ∨
        (c - 2) / 4096 = (first + n - 1 - 2) / 4096) with same | same
      · exact .inr (.inl (by rw [same]))
      · exact .inr (.inr (by rw [same]))
    · simp only [fatSector]
      omega
  · refine ⟨fatSector m first, fatSector m (first + n - 1), bitmapLba m d ((first - 2) / 4096),
      fun c member => ?_⟩
    rw [List.mem_range'_1] at member
    constructor
    · have same : (c - 2) / 4096 = (first - 2) / 4096 := by omega
      exact .inr (.inr (by rw [same]))
    · simp only [fatSector]
      omega

/-- With one sector more they fit a transaction. -/
theorem run_few_sectors (m : Mount) (d : Device) (first extra : Nat) (few : n ≤ 3) :
    ∃ sectors : Finset Nat, sectors.card ≤ exfatTestTxMaxSectors ∧ extra ∈ sectors ∧
      ∀ c ∈ List.range' first n, bitmapLba m d ((c - 2) / 4096) ∈ sectors ∧ fatSector m c ∈ sectors := by
  obtain ⟨x, y, z, within⟩ := run_sectors m d first few
  refine ⟨{extra, x, y, z}, Finset.card_le_four, by simp, fun c member => ?_⟩
  simp only [Finset.mem_insert, Finset.mem_singleton]
  exact ⟨.inr (within c member).1, .inr (within c member).2⟩

theorem run_few (ground : Ground m d₀) (extra : Nat) (few : n ≤ 3)
    (valid : ∀ c ∈ List.range' first n, exfatClusterValid m c)
    (listed : ∀ lp ∈ ps, lp.1 = extra ∨
      ∃ c ∈ List.range' first n, lp.1 = (place m d₀ c).lba ∨ lp.1 = fatSector m c) :
    (Transaction.sectors [] ps).card ≤ exfatTestTxMaxSectors := by
  obtain ⟨sectors, small, other, run⟩ := run_few_sectors m d₀ first extra few
  refine (Finset.card_le_card fun lba member => ?_).trans small
  simp only [Transaction.sectors, List.map_nil, List.toFinset_nil,
    Finset.empty_union, List.mem_toFinset, List.mem_map] at member
  obtain ⟨lp, listedMember, rfl⟩ := member
  rcases listed lp listedMember with same | ⟨c, inRun, same | same⟩
  · exact same ▸ other
  · rw [same, ground.place_lba (valid c inRun)]
    exact (run c inRun).1
  · exact same ▸ (run c inRun).2

/-! ## What a create and an extend ask of a transaction

The staging functions, over the function that hands out the images of sectors.
-/

section Handed

variable (get : Transaction → Nat → Option Transaction) (m : Mount) (d : Device)

def Transaction.mutateWith (tx : Transaction) (lba : Nat) (p : Patch) : Option Transaction :=
  (get tx lba).bind fun tx' => (p.apply (tx'.sector lba)).map fun s => tx'.store lba s

def setBitWith (tx : Transaction) (cluster : Nat) : Option Transaction :=
  (locateExfatBitmapBit m d cluster).bind fun place =>
    tx.mutateWith get place.lba (.bit place.offset place.mask true)

def writeWordWith (tx : Transaction) (cluster value : Nat) : Option Transaction :=
  if !exfatClusterValid m cluster then none
  else if m.exfat.fatOffset + m.exfat.fatLength ≤ fatSector m cluster ∨ 512 < cluster * 4 % 512 + 4 then none
  else tx.mutateWith get (fatSector m cluster) (.u32 (cluster * 4 % 512) value)

def stageChainWith : List Nat → Transaction → Option Transaction
  | [], tx => some tx
  | cluster :: rest, tx => do
    let tx' ← setBitWith get m d tx cluster
    let tx'' ← writeWordWith get m tx' cluster (rest.headD fatEnd)
    stageChainWith rest tx''

def stageCreateWith (clusters : List Nat) (dirLba dirOffset : Nat) (entries : Buf 96) : Option Transaction :=
  (stageChainWith get m d clusters []).bind fun tx =>
    tx.mutateWith get dirLba (.bytes dirOffset (entries.slice 0 96))

def stageExtendWith (last : Nat) (newClusters : List Nat) : Option Transaction :=
  (writeWordWith get m [] last (newClusters.headD 0)).bind fun tx => stageChainWith get m d newClusters tx

end Handed

/-- No more than four sectors are staged, and an image is asked for only while there is a slot for it: a
    function that does as `get` there, and whatever it likes elsewhere, leads to the same. -/
def Fits (m : Mount) (d : Device) (staged : Option Transaction)
    (stage : (Transaction → Nat → Option Transaction) → Option Transaction) : Prop :=
  ∃ sectors : Finset Nat, sectors.card ≤ exfatTestTxMaxSectors ∧
    (∀ tx, staged = some tx → tx.lbas.Nodup ∧ ∀ lba ∈ tx.lbas, lba ∈ sectors) ∧
    ∀ get, (∀ tx lba, lba ∈ sectors → lba ∈ tx.lbas ∨ tx.length < exfatTestTxMaxSectors →
      get tx lba = tx.get m d lba) → stage get = staged

/-- A transaction all of whose images are of some of the sectors. -/
def Transaction.Within (d : Device) (tx : Transaction) (sectors : Finset Nat) : Prop :=
  Transaction.Staged d tx ∧ ∀ lba ∈ tx.lbas, lba ∈ sectors

namespace Transaction.Within

variable {sectors : Finset Nat} (within : Transaction.Within d tx sectors)

include within

theorem mutate (member : lba ∈ sectors) (mutated : tx.mutate m d lba p = some tx') : Within d tx' sectors := by
  obtain ⟨staged, -, -, grown⟩ := mutate_staged within.1 mutated
  refine ⟨staged, fun other held => ?_⟩
  obtain rfl | old := (grown other).mp held
  · exact member
  · exact within.2 other old

theorem bit (member : bitmapLba m d ((c - 2) / 4096) ∈ sectors)
    (set : setExfatBitmapBitInTransaction m d tx c = some tx') : Within d tx' sectors := by
  unfold setExfatBitmapBitInTransaction writeExfatBitmapBitInTransaction at set
  split at set
  · cases set
  · rename_i p located
    exact within.mutate (locateExfatBitmapBit_lba located ▸ member) set

theorem word (member : fatSector m c ∈ sectors) (linked : writeExfatFatEntryInTransaction m d tx c v = some tx') :
    Within d tx' sectors := by
  simp only [writeExfatFatEntryInTransaction] at linked
  split at linked
  · cases linked
  split at linked
  · cases linked
  exact within.mutate member linked

variable {cs : List Nat} (run : ∀ c ∈ cs, bitmapLba m d ((c - 2) / 4096) ∈ sectors ∧ fatSector m c ∈ sectors)

include run

theorem stageChain (staged : TangPingOS.stageChain m d cs tx = some tx') : Within d tx' sectors := by
  induction cs generalizing tx with
  | nil =>
    cases staged
    exact within
  | cons c rest ih =>
    obtain ⟨tx₁, set, staged⟩ := Option.bind_eq_some_iff.mp staged
    obtain ⟨tx₂, linked, staged⟩ := Option.bind_eq_some_iff.mp staged
    obtain ⟨isBit, isWord⟩ := run c List.mem_cons_self
    exact ih ((within.bit isBit set).word isWord linked)
      (fun b member => run b (List.mem_cons_of_mem _ member)) staged

end Transaction.Within

section Agreeing

variable {get : Transaction → Nat → Option Transaction} {sectors : Finset Nat}
  (small : sectors.card ≤ exfatTestTxMaxSectors)
  (agrees : ∀ tx lba, lba ∈ sectors → lba ∈ tx.lbas ∨ tx.length < exfatTestTxMaxSectors →
    get tx lba = tx.get m d lba)
  {tx : Transaction} (within : tx.Within d sectors)

include small agrees within

theorem mutateWith_eq (member : lba ∈ sectors) : tx.mutateWith get lba p = tx.mutate m d lba p := by
  rw [Transaction.mutateWith, agrees tx lba member (within.1.room within.2 small member), Transaction.mutate]
  cases tx.get m d lba <;> rfl

theorem setBitWith_eq (member : bitmapLba m d ((c - 2) / 4096) ∈ sectors) :
    setBitWith get m d tx c = setExfatBitmapBitInTransaction m d tx c := by
  unfold setBitWith setExfatBitmapBitInTransaction writeExfatBitmapBitInTransaction
  cases located : locateExfatBitmapBit m d c with
  | none => rfl
  | some place => exact mutateWith_eq small agrees within (locateExfatBitmapBit_lba located ▸ member)

theorem writeWordWith_eq (member : fatSector m c ∈ sectors) :
    writeWordWith get m tx c v = writeExfatFatEntryInTransaction m d tx c v := by
  rw [writeWordWith, mutateWith_eq small agrees within member]
  rfl

theorem stageChainWith_eq {cs : List Nat}
    (run : ∀ c ∈ cs, bitmapLba m d ((c - 2) / 4096) ∈ sectors ∧ fatSector m c ∈ sectors) :
    stageChainWith get m d cs tx = stageChain m d cs tx := by
  induction cs generalizing tx with
  | nil => rfl
  | cons c rest ih =>
    obtain ⟨isBit, isWord⟩ := run c List.mem_cons_self
    rw [stageChainWith, stageChain, setBitWith_eq small agrees within isBit]
    refine Option.bind_congr fun tx₁ set => ?_
    rw [writeWordWith_eq small agrees (within.bit isBit set) isWord]
    refine Option.bind_congr fun tx₂ linked => ?_
    exact ih ((within.bit isBit set).word isWord linked) fun b member => run b (List.mem_cons_of_mem c member)

end Agreeing

end TangPingOS
