import TangPingOS.Exfat.Sets

/-! # Deleting files

A delete stages the directory sector and every sector that holds a bit or a word of the chain in one
transaction of four sectors. A chain that was lengthened cluster by cluster may be scattered over
more of them.
-/

namespace TangPingOS

open Lib

/-- The sectors that the delete of a file with the clusters `cs` writes at once. -/
def unlinkSectors (m : Mount) (d₀ : Device) (e : RootEntry) (cs : List Nat) : Finset Nat :=
  (e.directoryLba :: (cs.map (fun c => (place m d₀ c).lba) ++ cs.map (fatSector m))).toFinset

theorem sectors_unlinkPatches : Transaction.sectors [] (unlinkPatches m d₀ e cs) = unlinkSectors m d₀ e cs := by
  ext lba
  have staged : lba ∈ (editPatches m d₀ false (freeWords cs)).map Prod.fst ↔
      ∃ c ∈ cs, lba = (place m d₀ c).lba ∨ lba = fatSector m c :=
    mem_map_editPatches.trans (exists_mem_freeWords (p := fun c => lba = (place m d₀ c).lba ∨ lba = fatSector m c))
  simp only [Transaction.sectors, unlinkPatches, unlinkSectors, List.map_nil,
    List.toFinset_nil, Finset.empty_union, List.mem_toFinset, List.mem_cons, List.mem_map]
  grind

/-- The delete of the entry goes through: it is a file of the test build, and what it has to write
    fits a transaction. -/
structure Deletable (m : Mount) (d₀ d : Device) (e : RootEntry) : Prop where
  writable : e.writable
  fits : ∀ cs, collectExfatTestClusterChain m d e = some cs →
    (unlinkSectors m d₀ e cs).card ≤ exfatTestTxMaxSectors

theorem blockfsUnlink_iff (ground : Ground m d₀) (ready : m.exfat.commit.ready)
    (table : Table m d₀ fs cells) (sets : Sets fs)
    (parsed : parseExfatTestShortName path = some name) :
    (blockfsUnlink m fs path).2 ↔
      ∃ i e, Named fs.rootEntries rootPath name i e ∧ Deletable m d₀ fs.dev e := by
  have leads {i : Nat} : findExfatRootEntry fs.rootEntries path = some i ↔
      ∃ e, Named fs.rootEntries rootPath name i e := by
    rw [findExfatRootEntry_short parsed, findIdx?_eq_some_iff_firstMatch]
  have outcome {i : Nat} {e : RootEntry} (named : Named fs.rootEntries rootPath name i e) :
      (blockfsUnlink m fs path).2 ↔ Deletable m d₀ fs.dev e := by
    have found := leads.mpr ⟨e, named⟩
    cases writable : e.writable with
    | false =>
      rw [blockfsUnlink, unlink_refused (.inr fun j x isFound atIndex => ?_)]
      · constructor
        · intro done
          cases done
        · intro deletable
          have never := deletable.writable
          rw [writable] at never
          cases never
      · obtain rfl := Option.some.inj (found.symm.trans isFound)
        obtain rfl := Option.some.inj (named.here.symm.trans atIndex)
        rw [writable]
        simp
    | true =>
      have ok := table.entries i e named.here writable
      obtain ⟨kept, begins, present, collected, -⟩ := collect_kept ground table named.here writable
      have inUse := (sets.on i e ⟨named.here, writable⟩).deletable ok.offset
      rw [blockfsUnlink, unlinkExfatTestFile_eq ground table.agree ok writable
        (Nat.le_trans begins.length_le ok.few) (fun b member => ok.valid b (begins.subset member)) present ready
        (by rw [parsed]; rfl) found named.here collected, sectors_unlinkPatches]
      constructor
      · intro done
        refine ⟨writable, fun cs isCs => ?_⟩
        obtain rfl := Option.some.inj (collected.symm.trans isCs)
        by_contra many
        rw [if_neg fun both => many both.2] at done
        cases done
      · intro deletable
        rw [if_pos ⟨inUse, deletable.fits kept collected⟩]
  constructor
  · intro done
    cases found : findExfatRootEntry fs.rootEntries path with
    | none =>
      rw [blockfsUnlink, unlink_refused (.inr fun j x isFound _ => ?_)] at done
      · cases done
      · rw [found] at isFound
        cases isFound
    | some i =>
      obtain ⟨e, named⟩ := leads.mp found
      exact ⟨i, e, named, (outcome named).mp done⟩
  · rintro ⟨i, e, named, deletable⟩
    exact (outcome named).mpr deletable

/-- A file of the test build can be deleted exactly if it is the first of its name in the table and
    what its delete has to write fits a transaction. -/
theorem files_deletable_iff {d : Device} {m : Mount} {fs : Fs} (mounted : blockfsMount d = (m, fs))
    (wellFormed : WellFormed m d) (io : IoSucceeds m d)
    (apart : ∀ i j c, rootChain m d i = some c → bitmapChain m d j ≠ some c)
    (fits : 3 * m.clusterSize < 2 ^ 64) (ops : List FileOp) {i : Nat} {e : RootEntry}
    (live : (runOps m fs ops).Live i e) (named : (parseExfatTestShortName (0x2f :: e.name)).isSome) :
    (blockfsUnlink m (runOps m fs ops) (0x2f :: e.name)).2 = true ↔
      ∃ j x, Named (runOps m fs ops).rootEntries rootPath e.name j x ∧
        Deletable m d (runOps m fs ops).dev x := by
  have ready : m.exfat.commit.ready := by
    cases ready : m.exfat.commit.ready with
    | true => rfl
    | false =>
      rw [runOps_unready ready] at live
      have readOnly := blockfsMount_readOnly mounted ready e (List.mem_of_getElem? live.1)
      rw [live.2] at readOnly
      cases readOnly
  have start : Mounted d m fs := ⟨mounted, ready, wellFormed, io, apart, fits⟩
  obtain ⟨cells, table, sets⟩ := start.sets ops
  obtain ⟨name, parsed⟩ := Option.isSome_iff_exists.mp named
  obtain rfl : e.name = name := by
    obtain ⟨same, -⟩ := parseExfatTestShortName_spec parsed
    exact (List.cons.inj same).2
  exact blockfsUnlink_iff start.ground ready table sets parsed

def bitmapBytes (count : Nat) (free : List Nat) : Bytes :=
  (List.range ((count + 7) / 8)).map fun k =>
    UInt8.ofNat ((List.range 8).foldl (fun v b => if (8 * k + b + 2) ∈ free then v else v + 2 ^ b) 0)

/-- A volume of 300 clusters whose FAT takes three sectors. Six clusters are free: four in the first
    sector of the FAT, and one each in the others. -/
def fragmentedDevice : Device :=
  smallDevice 3 4 300 2 0 overlappingDevice.bounded
    [(1, sectorOf [(8, le32 fatEnd), (12, le32 fatEnd)]), (4, sectorOf [(0, bitmapEntryOf 3 38)]),
      (5, sectorOf [(0, bitmapBytes 300 [4, 5, 6, 7, 130, 260])])]

def fragmentedFs : Fs :=
  runOps (blockfsMount fragmentedDevice).1 (blockfsMount fragmentedDevice).2
    [.write [0x2f, 0x41] 0 [1], .write [0x2f, 0x41] 512 [1], .write [0x2f, 0x41] 1024 [1]]

set_option maxRecDepth 100000 in
theorem fragmentedDevice_facts :
    mountTest fragmentedDevice ∧
      fragmentedFs.rootEntries.map (fun e => (e.name, e.writable)) = [(newTxt, true), ([0x41], true)] ∧
      (blockfsUnlink (blockfsMount fragmentedDevice).1 fragmentedFs (0x2f :: newTxt)).2 ∧
      (blockfsUnlink (blockfsMount fragmentedDevice).1 fragmentedFs [0x2f, 0x41]).2 = false := by
  decide +kernel

theorem fragmentedDevice_mounted :
    Mounted fragmentedDevice (blockfsMount fragmentedDevice).1 (blockfsMount fragmentedDevice).2 :=
  .of_test fragmentedDevice_facts.1 rfl

theorem fragmentedFs_live {i name} (shown : [(newTxt, true), ([0x41], true)][i]? = some (name, true)) :
    ∃ e, fragmentedFs.Live i e ∧ e.name = name := by
  rw [← fragmentedDevice_facts.2.1, List.getElem?_map] at shown
  obtain ⟨e, atIndex, same⟩ := Option.map_eq_some_iff.mp shown
  rw [Prod.mk.injEq] at same
  exact ⟨e, ⟨atIndex, same.2⟩, same.1⟩

/-- `NEW.TXT` holds three clusters in a row and can be deleted. -/
theorem files_deletable_newTxt :
    ∃ e, fragmentedFs.Live 0 e ∧ e.name = newTxt ∧ ∃ j x, Named fragmentedFs.rootEntries rootPath e.name j x ∧
      Deletable (blockfsMount fragmentedDevice).1 fragmentedDevice fragmentedFs.dev x := by
  obtain ⟨e, live, isNew⟩ := @fragmentedFs_live 0 newTxt rfl
  have start := fragmentedDevice_mounted
  refine ⟨e, live, isNew, (files_deletable_iff start.mounted start.wellFormed start.io start.apart start.fits
    [.write [0x2f, 0x41] 0 [1], .write [0x2f, 0x41] 512 [1], .write [0x2f, 0x41] 1024 [1]] live ?_).mp ?_⟩
  · rw [isNew]
    decide
  · rw [isNew]
    exact fragmentedDevice_facts.2.2.1

/-- The file `A` has come to lie in clusters 7, 130 and 260, whose words are in three sectors. With the
    sectors of the bitmap and of the directory this makes five. -/
theorem fragmented_file_stays :
    Mounted fragmentedDevice (blockfsMount fragmentedDevice).1 (blockfsMount fragmentedDevice).2 ∧
      (∃ e, fragmentedFs.Live 1 e ∧ e.name = [0x41]) ∧ (parseExfatTestShortName [0x2f, 0x41]).isSome ∧
      (blockfsUnlink (blockfsMount fragmentedDevice).1 fragmentedFs [0x2f, 0x41]).2 = false :=
  ⟨fragmentedDevice_mounted, fragmentedFs_live rfl, by decide, fragmentedDevice_facts.2.2.2⟩

end TangPingOS
