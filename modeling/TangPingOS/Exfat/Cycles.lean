import TangPingOS.Exfat.Contents
import TangPingOS.Exfat.Sets

/-! # Create and delete, again and again

A file that is created and deleted leaves the FAT, the bitmap and the free directory
slots as it found them, so the next file of the same kind gets the same clusters and
the same slots. It does not leave the table of root entries as it found it.
-/

namespace TangPingOS

open Lib

variable {d d' : Device} {m : Mount} {i lba left requested : Nat} {cells' : Nat → List Nat} {e : RootEntry}
  {here r : SlotRun}

def MapSector (m : Mount) (d : Device) (lba : Nat) : Prop :=
  (m.exfat.fatOffset ≤ lba ∧ lba < m.exfat.fatOffset + m.exfat.fatLength) ∨
    ∃ i b j, bitmapChain m d i = some b ∧ j < m.sectorsPerCluster ∧ lba = heapSector m b j

def SameMaps (m : Mount) (d d' : Device) : Prop := ∀ lba, MapSector m d lba → d'.data lba = d.data lba

theorem Device.patchAll_congr
    (same : d.data lba = d'.data lba) : (patchAll ps d).data lba = (patchAll ps d').data lba := by
  induction ps generalizing d d' with
  | nil => exact same
  | cons lp rest ih =>
    apply ih
    rw [patch_data, patch_data]
    split
    · rename_i here
      rw [here] at same
      rw [same]
    · exact same

section Maps

variable {d₀ : Device} (ground : Ground m d₀) (agree : SameReserved m d₀ d) (map : MapSector m d₀ lba)

include ground agree map

theorem MapSector.outside (valid : ∀ c ∈ cs, exfatClusterValid m c)
    (apart : ∀ c ∈ cs, ¬ Reserved m d₀ c) : ¬ InClusters m cs lba := by
  have vol := agree.volume ground.vol
  rintro ⟨c, member, k, inside, same⟩
  cases map with
  | inl inFat =>
    have isFat : fatSector m ((lba - m.exfat.fatOffset) * 128) = lba := by
      unfold fatSector
      omega
    exact vol.fat_ne_heapSector (by omega) (valid c member) inside (isFat.trans same)
  | inr inBitmap =>
    obtain ⟨i, b, j, chain, within, rfl⟩ := inBitmap
    obtain ⟨rfl, -⟩ := vol.heapSector_inj (exfatResolveCluster_valid chain) (valid c member) within
      inside same
    exact apart _ member (.inr ⟨i, chain⟩)

theorem MapSector.not_root (root : RootSector m d₀ lba) : False := by
  have vol := agree.volume ground.vol
  obtain ⟨i, b, j, chain, within, rfl⟩ := root
  cases map with
  | inl inFat =>
    have isFat : fatSector m ((heapSector m b j - m.exfat.fatOffset) * 128) = heapSector m b j := by
      unfold fatSector
      omega
    exact vol.fat_ne_heapSector (by omega) (exfatResolveCluster_valid chain) within isFat
  | inr inBitmap =>
    obtain ⟨i', b', j', chain', within', same⟩ := inBitmap
    obtain ⟨rfl, -⟩ := vol.heapSector_inj (exfatResolveCluster_valid chain)
      (exfatResolveCluster_valid chain') within within' same
    exact ground.apart i i' _ chain chain'

end Maps

section Undo

variable {d₀ : Device} (ground : Ground m d₀) (agree : SameReserved m d₀ d) {cs : List Nat}
  (free : ∀ c ∈ cs, Free m d₀ d c)

include ground agree free

theorem fatWord_undo (covered : x * 4 / 512 < m.exfat.fatLength) :
    fatWord m (Device.patchAll (editPatches m d₀ false (freeWords cs))
      (Device.patchAll (editPatches m d₀ true (linkWords cs)) d)) x = fatWord m d x := by
  have valid : ∀ c ∈ cs, exfatClusterValid m c := fun c member => (free c member).valid
  have vol := agree.volume ground.vol
  have vol₁ := vol.ofShape (Device.sameShape_patchAll (editPatches m d₀ true (linkWords cs)) d)
  have small : ∀ w ∈ freeWords cs, w.2 < 2 ^ 32 := by
    intro w member
    obtain ⟨c, -, rfl⟩ := List.mem_map.mp member
    norm_num
  rw [fatWord_editPatches ground vol₁ (freeWords_valid valid) small covered, foldl_freeWords,
    freeCells]
  split
  · rename_i member
    exact (free x member).unlinked.symm
  · rename_i outside
    rw [fatWord_editPatches ground vol (linkWords_valid valid) (fatWord_fits valid) covered,
      foldl_linkWords, linkCells_outside outside]

omit agree in
theorem bitAt_undo {q : BitPlace} (small : q.bit < 8)
    (outside : ∀ b, exfatClusterValid m b → q.lba ≠ fatSector m b) :
    bitAt (Device.patchAll (editPatches m d₀ false (freeWords cs))
      (Device.patchAll (editPatches m d₀ true (linkWords cs)) d)) q = bitAt d q := by
  have valid : ∀ c ∈ cs, exfatClusterValid m c := fun c member => (free c member).valid
  rw [bitAt_editPatches_place ground (freeWords_valid valid) small outside]
  split
  · rename_i taken
    obtain ⟨c, member, same⟩ := (exists_mem_freeWords (p := fun y => SamePlace q (place m d₀ y))).mp taken
    rw [same.bitAt_eq, (free c member).clear]
  · rename_i others
    rw [bitAt_editPatches_place ground (linkWords_valid valid) small outside, if_neg]
    intro taken
    rw [exists_mem_linkWords (p := fun y => SamePlace q (place m d₀ y))] at taken
    exact others ((exists_mem_freeWords (p := fun y => SamePlace q (place m d₀ y))).mpr taken)

/-- Clearing the bits and freeing the words of clusters that were free before they were linked leaves
    every byte of the FAT and of the bitmap as it was. -/
theorem edits_undone (map : MapSector m d₀ lba) :
    (Device.patchAll (editPatches m d₀ false (freeWords cs))
      (Device.patchAll (editPatches m d₀ true (linkWords cs)) d)).data lba = d.data lba := by
  cases map with
  | inl inFat =>
    apply @Buf.ext_readLe32 128
    intro k small
    have isSector : fatSector m ((lba - m.exfat.fatOffset) * 128 + k) = lba := by
      unfold fatSector
      omega
    have isOffset : ((lba - m.exfat.fatOffset) * 128 + k) * 4 % 512 = 4 * k := by omega
    have undone := fatWord_undo ground agree free (x := (lba - m.exfat.fatOffset) * 128 + k) (by omega)
    rw [fatWord, fatWord, isSector, isOffset] at undone
    exact undone
  | inr inBitmap =>
    obtain ⟨i, b, j, chain, within, rfl⟩ := inBitmap
    apply Buf.ext_get
    intro offset inside
    apply eq_of_bitSet
    intro bit small
    refine bitAt_undo ground free (q := ⟨heapSector m b j, offset, bit⟩) small fun c valid => ?_
    exact (ground.vol.fatSector_ne_heapSector valid (exfatResolveCluster_valid chain) within).symm

end Undo

/-! ## Searches that find the same -/

theorem scanSlots_congr (same : ∀ k < slot + left, exfatDirectorySlotFree s' k = exfatDirectorySlotFree s k) :
    scanSlots s' here slot left r = scanSlots s here slot left r := by
  induction left generalizing slot r with
  | zero => rfl
  | succ left ih =>
    have later : ∀ k < slot + 1 + left, exfatDirectorySlotFree s' k = exfatDirectorySlotFree s k :=
      fun k low => same k (by omega)
    simp only [scanSlots]
    rw [same slot (by omega), ih later, ih later]

section Search

variable {d₀ : Device} (ground : Ground m d₀) (agree : SameReserved m d₀ d) (agree' : SameReserved m d₀ d')

def SameSlots (m : Mount) (d₀ d d' : Device) : Prop :=
  ∀ lba, RootSector m d₀ lba → ∀ k < 16,
    exfatDirectorySlotFree (d'.data lba) k = exfatDirectorySlotFree (d.data lba) k

include ground agree agree'

theorem scanSlotSectors_congr (slots : SameSlots m d₀ d d') (chain : rootChain m d₀ i = some b)
    (inside : k + left ≤ m.sectorsPerCluster) :
    scanSlotSectors d' here (exfatClusterLba m b) k left r =
      scanSlotSectors d here (exfatClusterLba m b) k left r := by
  induction left generalizing k r with
  | zero => rfl
  | succ left ih =>
    have valid := exfatResolveCluster_valid chain
    have within : k < m.sectorsPerCluster := by omega
    have vol := agree.volume ground.vol
    have vol' := agree'.volume ground.vol
    have scanned (here : SlotRun) : scanSlots (d'.data (heapSector m b k)) here 0 16 r =
        scanSlots (d.data (heapSector m b k)) here 0 16 r :=
      scanSlots_congr fun j low => slots _ ⟨i, b, k, chain, within, rfl⟩ j (by omega)
    simp only [scanSlotSectors, vol.wrap64_lba valid within, blockRead, vol.io.heap b k valid within,
      vol'.io.heap b k valid within, if_true, scanned]
    split
    · exact ih (by omega)
    · rfl

theorem scanSlotClusters_congr (slots : SameSlots m d₀ d d') :
    scanSlotClusters m d' i left r = scanSlotClusters m d i left r := by
  induction left generalizing i r with
  | zero => rfl
  | succ left ih =>
    have chain := agree.rootChain_eq ground.vol i
    have chain' := agree'.rootChain_eq ground.vol i
    unfold rootChain at chain chain'
    simp only [scanSlotClusters, chain, chain']
    split
    · rfl
    · rename_i b found
      rw [scanSlotSectors_congr ground agree agree' slots found (by omega)]
      split
      · rfl
      · split
        · exact ih
        · rfl

theorem findExfatRootDirectorySlot_congr (slots : SameSlots m d₀ d d') :
    findExfatRootDirectorySlot m d' = findExfatRootDirectorySlot m d := by
  unfold findExfatRootDirectorySlot searchRootDirectorySlots
  rw [scanSlotClusters_congr ground agree agree' slots]

/-- The bits and words of the clusters are in the sectors of the maps. -/
theorem freeRunFrom_congr (maps : ∀ lba, MapSector m d₀ lba → d'.data lba = d.data lba) :
    freeRunFrom m d' requested cluster left run = freeRunFrom m d requested cluster left run := by
  have bit (c : Nat) : readExfatBitmapBit m d' c = readExfatBitmapBit m d c := by
    cases valid : exfatClusterValid m c with
    | false => simp [readExfatBitmapBit, locateExfatBitmapBit, valid]
    | true =>
      obtain ⟨-, -, i, b, j, chain, within, lba⟩ := ground.place_spec valid
      rw [ground.readBit agree valid, ground.readBit agree' valid, bitAt, bitAt,
        maps _ (.inr ⟨i, b, j, chain, within, lba⟩)]
  have word (c : Nat) : exfatReadFatEntry m d' c = exfatReadFatEntry m d c := by
    cases valid : exfatClusterValid m c with
    | false => simp [exfatReadFatEntry, valid]
    | true =>
      have covered := ground.vol.fatCovers c valid
      have inFat : MapSector m d₀ (fatSector m c) := by
        apply Or.inl
        unfold fatSector
        omega
      rw [(agree.volume ground.vol).exfatReadFatEntry_eq valid,
        (agree'.volume ground.vol).exfatReadFatEntry_eq valid, fatWord, fatWord, maps _ inFat]
  induction left generalizing cluster run with
  | zero => rfl
  | succ left ih => simp only [freeRunFrom, bit, word, ih]

theorem findExfatFreeClusterRun_congr (maps : ∀ lba, MapSector m d₀ lba → d'.data lba = d.data lba)
    (requested : Nat) : findExfatFreeClusterRun m d' requested = findExfatFreeClusterRun m d requested := by
  unfold findExfatFreeClusterRun
  rw [freeRunFrom_congr ground agree agree' maps]

end Search

/-! ## One cycle -/

theorem findExfatRootEntry_append (absent : findExfatRootEntry entries path = none) :
    findExfatRootEntry (entries ++ [e]) path =
      if splitPath path = some (e.parent, e.name) then some entries.length else none := by
  unfold findExfatRootEntry at absent ⊢
  cases split : splitPath path with
  | none => simp
  | some parts =>
    obtain ⟨parent, name⟩ := parts
    rw [split] at absent
    simp only at absent ⊢
    rw [List.findIdx?_append, absent]
    by_cases same : parent = e.parent ∧ name = e.name
    · simp [same.1, same.2]
    · have other : ¬ (e.parent = parent ∧ e.name = name) := fun h => same ⟨h.1.symm, h.2.symm⟩
      simp [same, other]

theorem planCreation_found (ground : Ground m d₀) (agree : SameReserved m d₀ fs.dev)
    (plan : planCreation m fs path requested = some c) (parent : e.parent = rootPath) (name : e.name = c.name) :
    findExfatRootEntry (fs.rootEntries ++ [e]) path = some fs.rootEntries.length := by
  obtain ⟨planned, -, isPath⟩ := planCreation_spec ground agree plan
  rw [findExfatRootEntry_append (planCreation_absent plan), isPath, splitPath_short planned.name, parent, name]
  exact if_pos rfl

theorem exfatTestClusterCountForSize_low (accepted : exfatTestClusterCountForSize m size ≠ 0) (some_ : size ≠ 0) :
    (exfatTestClusterCountForSize m size - 1) * m.clusterSize < size := by
  simp only [exfatTestClusterCountForSize] at accepted ⊢
  by_cases none : m.clusterSize = 0
  · simp [none] at accepted
  rw [if_neg none, if_neg some_] at accepted ⊢
  by_cases huge : u64Max - (m.clusterSize - 1) < size
  · simp [huge] at accepted
  rw [if_neg huge] at accepted ⊢
  by_cases refused : (size + m.clusterSize - 1) / m.clusterSize = 0 ∨
      exfatAllocPlanClusterCount < (size + m.clusterSize - 1) / m.clusterSize
  · exact absurd (if_pos refused) accepted
  rw [if_neg refused]
  have whole := Nat.div_mul_le_self (size + m.clusterSize - 1) m.clusterSize
  rw [Nat.sub_mul]
  omega

/-- The file system after a write to a fresh name; `d'` is the device with the data written. -/
def writtenFs (m : Mount) (fs : Fs) (c : Creation) (size : Nat) (d' : Device) : Fs :=
  ⟨fs.rootEntries ++ [{ c.entry m with size := size }],
    d'.put c.lba (resizedEntrySet (d'.data c.lba) c.offset size)⟩

section Cycle

variable {d₀ : Device} (ground : Ground m d₀) (ready : m.exfat.commit.ready) {fs : Fs}
  {cells : Nat → List Nat} (table : Table m d₀ fs cells) (sets : Sets fs) {path : Bytes} {c : Creation}
  {data : Bytes}

include ground ready table

/-- A write from the start of a file that is not there: create it, then write into it. -/
theorem blockfsWrite_absent (absent : findExfatRootEntry fs.rootEntries path = none) :
    blockfsWrite m fs path 0 data =
      match planCreation m fs path (exfatTestClusterCountForSize m data.length) with
      | none => (fs, none)
      | some c =>
        if maxRootEntries ≤ fs.rootEntries.length then ({ fs with dev := c.device m d₀ fs.dev }, none)
        else writeFileData m ⟨fs.rootEntries ++ [c.entry m], c.device m d₀ fs.dev⟩ fs.rootEntries.length
          (c.entry m) 0 data := by
  rw [blockfsWrite, absent]
  simp only [ne_eq, not_true_eq_false, if_false]
  by_cases refused : exfatTestClusterCountForSize m data.length = 0
  · simp [refused, planCreation]
  rw [if_neg refused, createExfatTestFileWithClusters_eq ground table.agree ready]
  cases plan : planCreation m fs path (exfatTestClusterCountForSize m data.length) with
  | none => rfl
  | some c =>
    obtain ⟨planned, len, isPath⟩ := planCreation_spec ground table.agree plan
    by_cases full : maxRootEntries ≤ fs.rootEntries.length
    · simp [full]
    · have found : findExfatRootEntry (fs.rootEntries ++ [c.entry m]) path = some fs.rootEntries.length :=
        planCreation_found ground table.agree plan rfl rfl
      have atIndex : (fs.rootEntries ++ [c.entry m])[fs.rootEntries.length]? = some (c.entry m) := by simp
      have enough : ¬ (c.entry m).capacity < 0 + data.length := by
        have fits := planCreation_fits ground table.agree plan
        show ¬ c.clusters.length * m.clusterSize < 0 + data.length
        omega
      have checks : ¬ (!m.exfat.commit.ready || !(c.entry m).writable || (c.entry m).parent != rootPath ||
          m.clusterSize == 0 || decide (u64Max - data.length < 0)) := by
        have nonzero := beq_false_of_ne (Nat.ne_of_gt ground.vol.clusterSize_pos)
        simp [ready, nonzero, Creation.entry]
      simp only [if_neg full, found, atIndex]
      rw [blockfsWriteNewFile, if_neg checks, if_neg enough]

/-- If such a write succeeds, the create was planned, the table had room and the chain can be
    followed. -/
theorem blockfsWrite_absent_some (absent : findExfatRootEntry fs.rootEntries path = none)
    (some_ : data.length ≠ 0) (done : (blockfsWrite m fs path 0 data).2.isSome) :
    ∃ c, planCreation m fs path (exfatTestClusterCountForSize m data.length) = some c ∧
      fs.rootEntries.length < maxRootEntries ∧ Followable c.clusters := by
  rw [blockfsWrite_absent ground ready table absent] at done
  cases plan : planCreation m fs path (exfatTestClusterCountForSize m data.length) with
  | none => simp [plan] at done
  | some c =>
    by_cases full : maxRootEntries ≤ fs.rootEntries.length
    · simp [plan, full] at done
    · obtain ⟨planned, len, -⟩ := planCreation_spec ground table.agree plan
      refine ⟨c, rfl, Nat.not_le.mp full, ?_⟩
      have table₁ := table.create ground planned
      have ok := table₁.entries fs.rootEntries.length (c.entry m) (by simp) rfl
      have linked := table₁.owns.linked fs.rootEntries.length
      rw [Function.update_self] at ok linked
      have wrote : (writeFrom m (c.entry m) 0 data data.length 0 (c.device m d₀ fs.dev)).2 := by
        simp only [plan, if_neg full, writeFileData] at done
        generalize writeFrom m (c.entry m) 0 data data.length 0 (c.device m d₀ fs.dev) = outcome at done ⊢
        obtain ⟨d', ended⟩ := outcome
        cases ended with
        | false => simp at done
        | true => rfl
      have low := writeFrom_low ok (table₁.volume ground) linked
        (Nat.le_of_eq (Nat.zero_add data.length).symm) wrote (by omega : 0 + 0 ≤ data.length - 1) (by omega)
      have accepted : exfatTestClusterCountForSize m data.length ≠ 0 := by
        rw [← len]
        exact mt List.length_eq_zero_iff.mp planned.some_
      have reaches := exfatTestClusterCountForSize_low accepted some_
      rw [← len] at reaches
      have index : c.clusters.length - 1 ≤ (data.length - 1) / m.clusterSize :=
        (Nat.le_div_iff_mul_le ground.vol.clusterSize_pos).mpr (by omega)
      rw [List.take_of_length_le (by rw [List.length_tail]; exact index)] at low
      exact low

include sets

theorem blockfsWrite_fresh (plan : planCreation m fs path (exfatTestClusterCountForSize m data.length) = some c)
    (followable : Followable c.clusters) (room : fs.rootEntries.length < maxRootEntries)
    (some_ : data.length ≠ 0) :
    ∃ d', DataOnly m c.clusters (c.device m d₀ fs.dev) d' ∧
      blockfsWrite m fs path 0 data = (writtenFs m fs c data.length d', some data.length) ∧
      Table m d₀ (writtenFs m fs c data.length d')
        (Function.update cells fs.rootEntries.length c.clusters) ∧
      Sets (writtenFs m fs c data.length d') := by
  obtain ⟨planned, -⟩ := planCreation_spec ground table.agree plan
  have fits := planCreation_fits ground table.agree plan
  have create : Step m d₀ ⟨fs, cells⟩ _ := .create c planned room
  have table₁ := table.create ground planned
  have sets₁ := sets.step ground create table
  have atIndex : (fs.rootEntries ++ [c.entry m])[fs.rootEntries.length]? = some (c.entry m) := by simp
  have ok := table₁.entries _ _ atIndex rfl
  have linked := table₁.owns.linked fs.rootEntries.length
  have distinct := table₁.owns.nodup fs.rootEntries.length
  rw [Function.update_self] at ok linked distinct
  have inside : 0 + data.length ≤ c.clusters.length * m.clusterSize := by omega
  obtain ⟨d', ran, only, -⟩ := writeFrom_ok ok distinct followable inside (table₁.volume ground) linked
    (Nat.le_of_eq (Nat.zero_add data.length).symm)
  have mine : DataOnly m (Function.update cells fs.rootEntries.length c.clusters fs.rootEntries.length)
      (c.device m d₀ fs.dev) d' := by
    rw [Function.update_self]
    exact only
  have dataStep : Step m d₀ ⟨⟨fs.rootEntries ++ [c.entry m], c.device m d₀ fs.dev⟩,
      Function.update cells fs.rootEntries.length c.clusters⟩ _ := .data fs.rootEntries.length mine
  have table₂ := Table.step ground dataStep table₁
  have sets₂ := sets₁.step ground dataStep table₁
  have on : (c.entry m).SetOn d' := sets₂.on _ _ ⟨atIndex, rfl⟩
  have refreshed := refreshExfatTestFileSize_eq ground table₂.agree ok ready rfl data.length
  rw [if_neg (by
    rintro (small | mark | mark)
    · rw [ok.capacity] at small
      omega
    · exact mark on.fileMark
    · exact mark on.streamMark)] at refreshed
  have empty : (c.entry m).size < data.length := Nat.pos_of_ne_zero some_
  have last : (fs.rootEntries ++ [c.entry m]).set fs.rootEntries.length
      { c.entry m with size := data.length } =
        fs.rootEntries ++ [{ c.entry m with size := data.length }] := by
    rw [List.set_append_right _ _ (Nat.le_refl _), Nat.sub_self, List.set_cons_zero]
  have resizeStep : Step m d₀ ⟨⟨fs.rootEntries ++ [c.entry m], d'⟩,
      Function.update cells fs.rootEntries.length c.clusters⟩
      ⟨writtenFs m fs c data.length d', Function.update cells fs.rootEntries.length c.clusters⟩ := by
    rw [writtenFs, ← last]
    exact .resize atIndex rfl (by rw [ok.capacity]; exact fits)
  refine ⟨d', only, ?_, Table.step ground resizeStep table₂,
    sets₂.step ground resizeStep table₂⟩
  rw [blockfsWrite_absent ground ready table (planCreation_absent plan), plan]
  simp only [if_neg (Nat.not_le.mpr room), writeFileData, ran, Nat.zero_add, if_pos empty, refreshed]
  rw [last]
  rfl

theorem blockfsUnlink_fresh (live : fs.Live i e) (named : (parseExfatTestShortName path).isSome)
    (found : findExfatRootEntry fs.rootEntries path = some i) (followable : Followable (cells i))
    (run : ∃ first, cells i = List.range' first (cells i).length) :
    blockfsUnlink m fs path =
      (⟨fs.rootEntries.set i {}, unlinkedDevice m d₀ e (cells i) fs.dev⟩, true) := by
  have ok := table.entries i e live.1 live.2
  obtain ⟨kept, -, present, collected, whole⟩ := collect_kept ground table live.1 live.2
  obtain rfl := whole followable
  obtain ⟨first, run⟩ := run
  have on : e.SetOn fs.dev := sets.on i e live
  have few : (Transaction.sectors [] (unlinkPatches m d₀ e (cells i))).card ≤ exfatTestTxMaxSectors := by
    apply run_few ground e.directoryLba ok.few (run ▸ ok.valid)
    intro lp member
    cases member with
    | head => exact .inl rfl
    | tail _ staged =>
      obtain ⟨w, inChain, here⟩ := mem_map_editPatches.mp (List.mem_map_of_mem (f := Prod.fst) staged)
      exact .inr ⟨w.1, run ▸ mem_of_mem_freeWords inChain, here⟩
  rw [blockfsUnlink, unlinkExfatTestFile_eq ground table.agree ok live.2 ok.few ok.valid present ready named
    found live.1 collected, if_pos ⟨on.deletable ok.offset, few⟩]

end Cycle

section Leaves

variable {d₀ : Device} (ground : Ground m d₀) {fs : Fs} {cells : Nat → List Nat} (table : Table m d₀ fs cells)
  {c : Creation} (planned : Planned m d₀ fs c) (only : DataOnly m c.clusters (c.device m d₀ fs.dev) d')
  {size : Nat}

include ground table planned only

theorem unlinked_maps (map : MapSector m d₀ lba) :
    (unlinkedDevice m d₀ { c.entry m with size := size } c.clusters
      (writtenFs m fs c size d').dev).data lba = fs.dev.data lba := by
  have valid := planned.valid
  have apart := planned.apart table ground
  have outside := map.outside ground table.agree valid apart
  have elsewhere : lba ≠ c.lba := by
    rintro rfl
    exact map.not_root ground table.agree (planned.lba ground table.agree)
  have linked : (c.device m d₀ fs.dev).data lba =
      (Device.patchAll (editPatches m d₀ true (linkWords c.clusters)) fs.dev).data lba := by
    rw [Creation.device, Creation.patches, Device.patchAll_append, Device.patchAll_cons, Device.patchAll,
      Device.patch_data_other _ elsewhere]
    exact Device.patchAll_congr (if_neg outside)
  calc (unlinkedDevice m d₀ { c.entry m with size := size } c.clusters
        (writtenFs m fs c size d').dev).data lba
      = (Device.patchAll (editPatches m d₀ false (freeWords c.clusters))
          ((writtenFs m fs c size d').dev.patch c.lba (.deleteEntries c.offset 3))).data lba := if_neg outside
    _ = (Device.patchAll (editPatches m d₀ false (freeWords c.clusters))
          (Device.patchAll (editPatches m d₀ true (linkWords c.clusters)) fs.dev)).data lba := by
        apply Device.patchAll_congr
        rw [Device.patch_data_other _ elsewhere, writtenFs, Device.put_data_other elsewhere,
          only.outside lba outside, linked]
    _ = fs.dev.data lba := edits_undone ground table.agree planned.free map

theorem unlinked_slots (table' : Table m d₀ (writtenFs m fs c size d') cells')
    (sets' : Sets (writtenFs m fs c size d')) (held : cells' fs.rootEntries.length = c.clusters) :
    SameSlots m d₀ fs.dev (unlinkedDevice m d₀ { c.entry m with size := size } c.clusters
      (writtenFs m fs c size d').dev) := by
  have live : (writtenFs m fs c size d').Live fs.rootEntries.length { c.entry m with size := size } :=
    ⟨by simp [writtenFs], rfl⟩
  have on := live.setOn sets'
  obtain ⟨s, deleted⟩ := Option.isSome_iff_exists.mp (on.deletable planned.fits)
  have apart := planned.apart table ground
  have valid := planned.valid
  intro lba root k low
  have before := root.create ground table planned
  rw [root.unlink ground table' live.1 rfl (by rw [held])]
  show exfatDirectorySlotFree (if lba = c.lba then _ else _) k = _
  by_cases here : lba = c.lba
  · subst here
    rw [if_pos rfl] at before ⊢
    have device : (writtenFs m fs c size d').dev.data c.lba =
        resizedEntrySet ((fs.dev.data c.lba).write c.offset c.set) c.offset size := by
      rw [writtenFs, Device.put_data_self, only.outside _ (root.outside ground table.agree valid apart), before]
    have deletedHere : (Patch.deleteEntries c.offset 3).apply ((writtenFs m fs c size d').dev.data c.lba) =
      some s := deleted
    obtain ⟨z, offset, free⟩ := planned.free_slots
    show exfatDirectorySlotFree
      (((Patch.deleteEntries c.offset 3).apply ((writtenFs m fs c size d').dev.data c.lba)).getD _) k = _
    rw [deletedHere, Option.getD_some]
    have length : c.set.length = 96 := by rw [Creation.set, Buf.length_slice]
    by_cases mine : k = z ∨ k = z + 1 ∨ k = z + 2
    · -- A slot of the set was free before and is free again.
      have was : exfatDirectorySlotFree (fs.dev.data c.lba) k := by
        obtain rfl | rfl | rfl := mine
        · exact free.1
        · exact free.2.1
        · exact free.2.2
      have clear (v : UInt8) : v &&& 0x7f &&& 0x80 = 0 := by
        rw [UInt8.and_assoc, (by decide : (0x7f : UInt8) &&& 0x80 = 0), UInt8.and_zero]
      have byte : s.get (k * exfatEntrySize) =
          ((writtenFs m fs c size d').dev.data c.lba).get (k * exfatEntrySize) &&& 0x7f := by
        rw [deleteEntries_spec deletedHere planned.fits, if_pos (by unfold exfatEntrySize; omega)]
      rw [was]
      simp [exfatDirectorySlotFree, byte, clear]
    · have outside : k * exfatEntrySize < c.offset ∨ c.offset + 96 ≤ k * exfatEntrySize := by
        unfold exfatEntrySize
        omega
      have byte : s.get (k * exfatEntrySize) = (fs.dev.data c.lba).get (k * exfatEntrySize) := by
        rw [onlySet_deleted deletedHere planned.fits _ outside, device, onlySet_resized _ outside,
          onlySet_write length _ outside]
      unfold exfatDirectorySlotFree
      rw [byte]
  · rw [if_neg here] at before ⊢
    rw [writtenFs, Device.put_data_other here, only.outside _ (root.outside ground table.agree valid apart),
      before]

end Leaves

/-! ## Cycles -/

/-- `blockfs_write` from the start of the file, then `blockfs_unlink`; whether both succeed. -/
def createAndUnlink (m : Mount) (path data : Bytes) (fs : Fs) : Fs × Bool :=
  let (fs, written) := blockfsWrite m fs path 0 data
  let (fs, deleted) := blockfsUnlink m fs path
  (fs, written.isSome && deleted)

/-- The pair can be repeated `n` times, and every time leaves FAT and bitmap as they were. -/
def Sustained (m : Mount) (path data : Bytes) : Nat → Fs → Prop
  | 0, _ => True
  | n + 1, fs => (createAndUnlink m path data fs).2 ∧
      SameMaps m fs.dev (createAndUnlink m path data fs).1.dev ∧
      Sustained m path data n (createAndUnlink m path data fs).1

def blankAdded (fs : Fs) (d : Device) : Fs := ⟨fs.rootEntries ++ [({} : RootEntry)], d⟩

theorem MapSector.ground (ground : Ground m d₀) (agree : SameReserved m d₀ d)
    (map : MapSector m d lba) : MapSector m d₀ lba := by
  cases map with
  | inl inFat => exact .inl inFat
  | inr inBitmap =>
    obtain ⟨i, b, j, chain, within, lba⟩ := inBitmap
    rw [agree.bitmapChain_eq ground.vol] at chain
    exact .inr ⟨i, b, j, chain, within, lba⟩

section Cycles

variable {d₀ : Device} (ground : Ground m d₀) (ready : m.exfat.commit.ready) {fs : Fs}
  {cells : Nat → List Nat} (table : Table m d₀ fs cells) (sets : Sets fs) {path data : Bytes} {c : Creation}

include ground ready table sets

/-- One cycle: everything is as before, but the table has one more blank entry. -/
theorem createAndUnlink_ok (plan : planCreation m fs path (exfatTestClusterCountForSize m data.length) = some c)
    (followable : Followable c.clusters) (room : fs.rootEntries.length < maxRootEntries)
    (some_ : data.length ≠ 0) :
    ∃ d', createAndUnlink m path data fs = (blankAdded fs d', true) ∧
      (∃ cells', Table m d₀ (blankAdded fs d') cells') ∧ Sets (blankAdded fs d') ∧
      (∀ lba, MapSector m d₀ lba → d'.data lba = fs.dev.data lba) ∧ SameSlots m d₀ fs.dev d' := by
  obtain ⟨planned, -, isPath⟩ := planCreation_spec ground table.agree plan
  obtain ⟨d', only, wrote, table', sets'⟩ :=
    blockfsWrite_fresh ground ready table sets plan followable room some_
  have live : (writtenFs m fs c data.length d').Live fs.rootEntries.length
      { c.entry m with size := data.length } := ⟨by simp [writtenFs], rfl⟩
  have held : Function.update cells fs.rootEntries.length c.clusters fs.rootEntries.length = c.clusters :=
    Function.update_self ..
  have named : (parseExfatTestShortName path).isSome := by
    rw [isPath, planned.name]
    rfl
  have found : findExfatRootEntry (writtenFs m fs c data.length d').rootEntries path =
      some fs.rootEntries.length := planCreation_found ground table.agree plan rfl rfl
  have deleted := blockfsUnlink_fresh ground ready table' sets' live named found
    (by rw [held]; exact followable) (by rw [held]; exact planned.run)
  rw [held] at deleted
  have last : (writtenFs m fs c data.length d').rootEntries.set fs.rootEntries.length {} =
      fs.rootEntries ++ [({} : RootEntry)] := by
    rw [writtenFs, List.set_append_right _ _ (Nat.le_refl _), Nat.sub_self, List.set_cons_zero]
  rw [last] at deleted
  have inUse := (live.setOn sets').deletable planned.fits
  have unlinkStep : Step m d₀ ⟨writtenFs m fs c data.length d',
      Function.update cells fs.rootEntries.length c.clusters⟩ _ :=
    .unlink live.1 rfl (List.prefix_refl _) inUse
  have table₂ := Table.step ground unlinkStep table'
  have sets₂ := sets'.step ground unlinkStep table'
  simp only [held, last] at table₂ sets₂
  refine ⟨_, ?_, ⟨_, table₂⟩, sets₂, fun lba map => unlinked_maps ground table planned only map,
    unlinked_slots ground table planned only table' sets' held⟩
  simp [createAndUnlink, wrote, deleted, blankAdded]

omit ready sets in
/-- The next create finds the same clusters and the same slots. -/
theorem planCreation_blankAdded
    (plan : planCreation m fs path requested = some c) (table' : Table m d₀ (blankAdded fs d') cells')
    (maps : ∀ lba, MapSector m d₀ lba → d'.data lba = fs.dev.data lba)
    (slots : SameSlots m d₀ fs.dev d') : planCreation m (blankAdded fs d') path requested = some c := by
  obtain ⟨planned, -, isPath⟩ := planCreation_spec ground table.agree plan
  have absent := planCreation_absent plan
  have absent' : findExfatRootEntry (blankAdded fs d').rootEntries path = none := by
    rw [blankAdded, findExfatRootEntry_append absent, isPath, splitPath_short planned.name, if_neg]
    intro blank
    cases blank
  unfold planCreation at plan ⊢
  rw [absent] at plan
  rw [absent', findExfatFreeClusterRun_congr ground table.agree table'.agree maps,
    findExfatRootDirectorySlot_congr ground table.agree table'.agree slots]
  exact plan

omit ground ready table sets in
theorem createAndUnlink_written (done : (createAndUnlink m path data fs).2) :
    (blockfsWrite m fs path 0 data).2.isSome := by
  simp only [createAndUnlink, Bool.and_eq_true] at done
  exact done.1

omit table sets in
theorem sustained_iff (some_ : data.length ≠ 0) (followable : Followable c.clusters) (n : Nat) :
    ∀ {fs : Fs} {cells : Nat → List Nat}, Table m d₀ fs cells → Sets fs →
      planCreation m fs path (exfatTestClusterCountForSize m data.length) = some c →
      (Sustained m path data (n + 1) fs ↔ fs.rootEntries.length + n < maxRootEntries) := by
  induction n with
  | zero =>
    intro fs cells table sets plan
    constructor
    · intro sustained
      obtain ⟨-, -, room, -⟩ := blockfsWrite_absent_some ground ready table (planCreation_absent plan)
        some_ (createAndUnlink_written sustained.1)
      exact room
    · intro room
      obtain ⟨d', ran, -, -, maps, -⟩ :=
        createAndUnlink_ok ground ready table sets plan followable room some_
      unfold Sustained
      rw [ran]
      exact ⟨rfl, fun lba map => maps lba (map.ground ground table.agree), trivial⟩
  | succ n ih =>
    intro fs cells table sets plan
    constructor
    · intro sustained
      obtain ⟨-, -, room, -⟩ := blockfsWrite_absent_some ground ready table (planCreation_absent plan)
        some_ (createAndUnlink_written sustained.1)
      obtain ⟨d', ran, ⟨cells', table'⟩, sets', maps, slots⟩ :=
        createAndUnlink_ok ground ready table sets plan followable room some_
      have rest := sustained.2.2
      rw [ran] at rest
      have later := (ih table' sets' (planCreation_blankAdded ground table plan table' maps slots)).mp rest
      simp only [blankAdded, List.length_append, List.length_singleton] at later
      omega
    · intro room
      obtain ⟨d', ran, ⟨cells', table'⟩, sets', maps, slots⟩ :=
        createAndUnlink_ok ground ready table sets plan followable (by omega) some_
      have length : (blankAdded fs d').rootEntries.length = fs.rootEntries.length + 1 := by
        simp [blankAdded]
      rw [Sustained, ran]
      refine ⟨rfl, fun lba map => maps lba (map.ground ground table.agree), ?_⟩
      apply (ih table' sets' (planCreation_blankAdded ground table plan table' maps slots)).mpr
      omega

end Cycles

/-- If a file that is not there can be created and deleted once, then `n` more times exactly if the
    table of root entries has `n` more slots: a deleted file leaves its slot in the table behind. -/
theorem cycles_sustained_iff {d : Device} {m : Mount} {fs : Fs} (start : Mounted d m fs)
    (ops : List FileOp) {path data : Bytes}
    (fresh : findExfatRootEntry (runOps m fs ops).rootEntries path = none) (low : 1 ≤ data.length)
    (once : (createAndUnlink m path data (runOps m fs ops)).2 = true) (n : Nat) :
    Sustained m path data (n + 1) (runOps m fs ops) ↔
      (runOps m fs ops).rootEntries.length + n < maxRootEntries := by
  have ground := start.ground
  have some_ : data.length ≠ 0 := Nat.ne_of_gt low
  obtain ⟨cells, table, sets⟩ := start.sets ops
  obtain ⟨c, plan, -, followable⟩ := blockfsWrite_absent_some ground start.ready table fresh some_
    (createAndUnlink_written once)
  exact sustained_iff ground start.ready some_ followable n table sets plan

/-- `/A`. -/
def pathA : Bytes := [0x2f, 0x41]

def oneByte : Bytes := [1]

def plainFs : Fs := runOps (blockfsMount plainDevice).1 (blockfsMount plainDevice).2 []

set_option maxRecDepth 100000 in
theorem plainDevice_cycle :
    parseExfatTestShortName pathA = some [0x41] ∧ findExfatRootEntry plainFs.rootEntries pathA = none ∧
    1 ≤ oneByte.length ∧ oneByte.length ≤ 3 * (blockfsMount plainDevice).1.clusterSize ∧
    (createAndUnlink (blockfsMount plainDevice).1 pathA oneByte plainFs).2 ∧
    plainFs.rootEntries.length = 1 := by
  decide +kernel

/-- On the plain volume the pair succeeds 31 times. -/
theorem cycles_sustained_plain : Sustained (blockfsMount plainDevice).1 pathA oneByte 31 plainFs := by
  obtain ⟨-, fresh, low, -, once, length⟩ := plainDevice_cycle
  apply (cycles_sustained_iff plainDevice_mounted [] fresh low once 30).mpr
  show plainFs.rootEntries.length + 30 < maxRootEntries
  rw [length]
  decide

/-- The 32nd pair fails. -/
theorem cycles_exhausted :
    ∃ d m fs path data, Mounted d m fs ∧ (parseExfatTestShortName path).isSome ∧
      findExfatRootEntry (runOps m fs []).rootEntries path = none ∧ 1 ≤ data.length ∧
      data.length ≤ 3 * m.clusterSize ∧ (createAndUnlink m path data (runOps m fs [])).2 = true ∧
      ¬ Sustained m path data 32 (runOps m fs []) := by
  obtain ⟨short, fresh, low, high, once, length⟩ := plainDevice_cycle
  refine ⟨plainDevice, _, _, pathA, oneByte, plainDevice_mounted, by rw [short]; rfl, fresh, low, high, once,
    ?_⟩
  have ground := plainDevice_mounted.ground
  have some_ : oneByte.length ≠ 0 := by decide
  obtain ⟨cells, table, sets⟩ := plainDevice_mounted.sets []
  obtain ⟨c, plan, -, followable⟩ := blockfsWrite_absent_some ground plainDevice_mounted.ready table fresh
    some_ (createAndUnlink_written once)
  intro sustained
  have room := (sustained_iff ground plainDevice_mounted.ready some_ followable 31 table sets plan).mp
    sustained
  have full : plainFs.rootEntries.length + 31 < maxRootEntries := room
  rw [length] at full
  exact absurd full (by decide)

end TangPingOS
