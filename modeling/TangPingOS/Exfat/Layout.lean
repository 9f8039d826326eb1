import TangPingOS.Exfat.Bitmap
import TangPingOS.Exfat.Commit
import TangPingOS.Lib.Links
import TangPingOS.Lib.Walks

/-! # The volume as FAT words, bitmap bits and heap sectors

Well-formed volumes, and the device seen as a table of FAT words, a set of
allocation bits and the sectors of the clusters. Patching one of the three leaves
the others alone.
-/

namespace TangPingOS

open Lib

variable {d d' : Device} {m : Mount} {c c' i off : Nat}

section Regions

variable (m : Mount)

def fatSector (c : Nat) : Nat := m.exfat.fatOffset + c * 4 / 512

/-- Sector `i` of a cluster. -/
def heapSector (c i : Nat) : Nat := m.exfat.clusterHeapOffset + (c - 2) * m.sectorsPerCluster + i

def fatWord (d : Device) (c : Nat) : Nat := (d.data (fatSector m c)).readLe32 (c * 4 % 512)

/-- Cluster `i` of the root directory. -/
def rootChain (d : Device) (i : Nat) : Option Nat :=
  exfatResolveCluster m d m.exfat.rootDirCluster 0 i

/-- Cluster `i` of the allocation bitmap. -/
def bitmapChain (d : Device) (i : Nat) : Option Nat :=
  exfatResolveCluster m d m.exfat.allocationBitmap.cluster 0 i

def Reserved (d : Device) (c : Nat) : Prop :=
  (∃ i, rootChain m d i = some c) ∨ ∃ i, bitmapChain m d i = some c

end Regions

def bitAt (d : Device) (p : BitPlace) : Bool := bitSet ((d.data p.lba).get p.offset) p.bit

/-- A volume whose structures are where the boot sector says and whose directory and bitmap
    clusters are allocated. -/
structure WellFormed (m : Mount) (d : Device) : Prop where
  geometry : exfatGeometryValid m
  fatOutsideHeap : m.exfat.fatOffset + m.exfat.fatLength ≤ m.exfat.clusterHeapOffset ∨
    m.exfat.clusterHeapOffset + m.exfat.clusterCount * m.sectorsPerCluster ≤ m.exfat.fatOffset
  fatCovers : ∀ c, exfatClusterValid m c → c * 4 / 512 < m.exfat.fatLength
  heapInside : m.exfat.clusterHeapOffset + m.exfat.clusterCount * m.sectorsPerCluster ≤ d.blockCount
  bitmapCovers : ∀ c, exfatClusterValid m c → (locateExfatBitmapBit m d c).isSome
  rootUsed : ∀ i c, rootChain m d i = some c → readExfatBitmapBit m d c = some true
  bitmapUsed : ∀ i c, bitmapChain m d i = some c → readExfatBitmapBit m d c = some true

/-- Every transfer of a FAT or heap sector succeeds. -/
structure IoSucceeds (m : Mount) (d : Device) : Prop where
  writable : d.writable
  fat : ∀ c, exfatClusterValid m c → d.accepts (fatSector m c)
  heap : ∀ c i, exfatClusterValid m c → i < m.sectorsPerCluster →
    d.accepts (heapSector m c i)

/-- What the file operations rely on in the geometry of a mounted volume; it does not depend
    on sector contents. -/
structure Volume (m : Mount) (d : Device) : Prop where
  geometry : exfatGeometryValid m
  blockSize : m.blockSize = 512
  counted : m.clusterEnd = m.exfat.clusterCount + 2
  sized : m.clusterSize = m.sectorsPerCluster * 512
  fatCovers : ∀ c, exfatClusterValid m c → c * 4 / 512 < m.exfat.fatLength
  fatOutsideHeap : m.exfat.fatOffset + m.exfat.fatLength ≤ m.exfat.clusterHeapOffset ∨
    m.exfat.clusterHeapOffset + m.exfat.clusterCount * m.sectorsPerCluster ≤ m.exfat.fatOffset
  heapInside : m.exfat.clusterHeapOffset + m.exfat.clusterCount * m.sectorsPerCluster ≤ d.blockCount
  io : IoSucceeds m d

theorem exfatClusterValid_iff : exfatClusterValid m c ↔ exfatGeometryValid m ∧ 2 ≤ c ∧ c < m.clusterEnd := by
  simp [exfatClusterValid, and_assoc]

theorem exfatGeometryValid.sectorsPerCluster_pos (geometry : exfatGeometryValid m) : 0 < m.sectorsPerCluster := by
  simp only [exfatGeometryValid, Bool.and_eq_true, decide_eq_true_eq] at geometry
  exact geometry.1.1.1.2

/-- In a valid geometry the clusters end where the boot sector says. -/
theorem exfatGeometryValid.clusterEnd_eq (geometry : exfatGeometryValid m)
    (counted : m.exfat.clusterCount < 2 ^ 32) : m.clusterEnd = m.exfat.clusterCount + 2 := by
  simp only [exfatGeometryValid, Bool.and_eq_true, decide_eq_true_eq] at geometry
  have high := geometry.2
  simp only [Mount.clusterEnd] at high ⊢
  omega

/-- With every cluster size of 64 bits, a cluster of `sectorsPerCluster` sectors has its full
    size or none. -/
theorem clusterSize_eq (nonzero : m.clusterSize ≠ 0) : m.clusterSize = m.sectorsPerCluster * 512 := by
  simp only [Mount.clusterSize, Mount.sectorsPerCluster, oneShiftedBy] at nonzero ⊢
  split
  · rfl
  · rename_i small
    rw [if_neg small] at nonzero
    have power : 2 ^ m.exfat.sectorsPerClusterShift * 512 = 2 ^ (m.exfat.sectorsPerClusterShift + 9) := by
      rw [pow_add]
      norm_num
    rw [power] at nonzero ⊢
    by_cases fits : m.exfat.sectorsPerClusterShift + 9 < 64
    · exact Nat.mod_eq_of_lt (Nat.pow_lt_pow_right (by omega) fits)
    · exact absurd (Nat.mod_eq_zero_of_dvd (pow_dvd_pow 2 (Nat.le_of_not_lt fits))) nonzero

theorem heapSector_within (row : c - 2 < m.exfat.clusterCount) (inside : i < m.sectorsPerCluster) :
    heapSector m c i < m.exfat.clusterHeapOffset + m.exfat.clusterCount * m.sectorsPerCluster := by
  have rows := Nat.mul_le_mul_right m.sectorsPerCluster row
  rw [Nat.succ_mul] at rows
  simp only [heapSector]
  omega

/-- The sector that the address -1 would name is on no device. -/
theorem Device.ne_of_accepts (accepted : d.accepts (wrap64 (lba + 0))) : lba ≠ u64Max := by
  rintro rfl
  have bounded := d.bounded
  rw [Device.accepts, Bool.and_eq_true, decide_eq_true_eq] at accepted
  have outside := accepted.1
  simp only [wrap64, u64Max] at outside
  omega

namespace Volume

section

variable (vol : Volume m d)

include vol

theorem ofShape (shape : d.SameShape d') : Volume m d' where
  geometry := vol.geometry
  blockSize := vol.blockSize
  counted := vol.counted
  sized := vol.sized
  fatCovers := vol.fatCovers
  fatOutsideHeap := vol.fatOutsideHeap
  heapInside := shape.blockCount ▸ vol.heapInside
  io :=
    { writable := shape.writable.trans vol.io.writable
      fat := fun c valid => shape.accepts.trans (vol.io.fat c valid)
      heap := fun c i valid inside => shape.accepts.trans (vol.io.heap c i valid inside) }

theorem valid_iff : exfatClusterValid m c ↔ 2 ≤ c ∧ c < m.exfat.clusterCount + 2 := by
  rw [exfatClusterValid_iff, vol.counted]
  exact ⟨And.right, And.intro vol.geometry⟩

theorem sectorsPerCluster_pos : 0 < m.sectorsPerCluster := by
  exact exfatGeometryValid.sectorsPerCluster_pos vol.geometry

theorem clusterSize_pos : 0 < m.clusterSize := by
  have pos := vol.sectorsPerCluster_pos
  rw [vol.sized]
  omega

theorem heapSector_lt (valid : exfatClusterValid m c) (inside : i < m.sectorsPerCluster) :
    heapSector m c i <
      m.exfat.clusterHeapOffset + m.exfat.clusterCount * m.sectorsPerCluster := by
  obtain ⟨low, high⟩ := vol.valid_iff.mp valid
  exact heapSector_within (by omega) inside

theorem heapSector_lt_max (valid : exfatClusterValid m c)
    (inside : i < m.sectorsPerCluster) : heapSector m c i < u64Max := by
  have below := vol.heapSector_lt valid inside
  have room := vol.heapInside
  have bounded := d.bounded
  simp only [u64Max]
  omega

end

theorem heapSector_inj (_vol : Volume m d) (valid : exfatClusterValid m c)
    (valid' : exfatClusterValid m c') (inside : i < m.sectorsPerCluster)
    (inside' : i' < m.sectorsPerCluster) (same : heapSector m c i = heapSector m c' i') :
    c = c' ∧ i = i' := by
  obtain ⟨_, low, _⟩ := exfatClusterValid_iff.mp valid
  obtain ⟨_, low', _⟩ := exfatClusterValid_iff.mp valid'
  have pos : 0 < m.sectorsPerCluster := by omega
  have sums : i + m.sectorsPerCluster * (c - 2) = i' + m.sectorsPerCluster * (c' - 2) := by
    simp only [heapSector] at same
    rw [Nat.mul_comm m.sectorsPerCluster (c - 2), Nat.mul_comm m.sectorsPerCluster (c' - 2)]
    omega
  have columns := congrArg (· % m.sectorsPerCluster) sums
  have rows := congrArg (· / m.sectorsPerCluster) sums
  simp only [Nat.add_mul_mod_self_left, Nat.mod_eq_of_lt inside, Nat.mod_eq_of_lt inside',
    Nat.add_mul_div_left _ _ pos, Nat.div_eq_of_lt inside, Nat.div_eq_of_lt inside'] at columns rows
  exact ⟨by omega, columns⟩

variable (vol : Volume m d)

include vol

/-- The FAT, words that belong to no cluster included, lies outside the heap. -/
theorem fat_ne_heapSector (covered : c * 4 / 512 < m.exfat.fatLength)
    (valid' : exfatClusterValid m c') (inside : i < m.sectorsPerCluster) :
    fatSector m c ≠ heapSector m c' i := by
  have below := vol.heapSector_lt valid' inside
  have above : m.exfat.clusterHeapOffset ≤ heapSector m c' i := by
    simp only [heapSector]
    omega
  simp only [fatSector]
  rcases vol.fatOutsideHeap with before | behind <;> omega

variable (valid : exfatClusterValid m c)

include valid

theorem fatSector_ne_heapSector
    (valid' : exfatClusterValid m c') (inside : i < m.sectorsPerCluster) : fatSector m c ≠ heapSector m c' i :=
  vol.fat_ne_heapSector (vol.fatCovers c valid) valid' inside

theorem exfatClusterLba_eq : exfatClusterLba m c = heapSector m c 0 := by
  have small := vol.heapSector_lt_max valid vol.sectorsPerCluster_pos
  simp only [exfatClusterLba, valid, heapSector, u64Max] at small ⊢
  exact Nat.mod_eq_of_lt (by omega)

theorem exfatClusterLba_ne_max : exfatClusterLba m c ≠ u64Max := by
  rw [vol.exfatClusterLba_eq valid]
  exact Nat.ne_of_lt (vol.heapSector_lt_max valid vol.sectorsPerCluster_pos)

/-- The LBA arithmetic of the code never wraps inside the heap. -/
theorem wrap64_lba (inside : i < m.sectorsPerCluster) : wrap64 (exfatClusterLba m c + i) = heapSector m c i := by
  have small := vol.heapSector_lt_max valid inside
  rw [vol.exfatClusterLba_eq valid]
  simp only [heapSector, u64Max] at small ⊢
  exact Nat.mod_eq_of_lt (by omega)

theorem exfatReadFatEntry_eq : exfatReadFatEntry m d c = some (fatWord m d c) := by
  have covered := vol.fatCovers c valid
  have accepted := vol.io.fat c valid
  simp only [fatSector] at accepted
  simp only [exfatReadFatEntry, valid, if_true, blockRead, accepted, fatWord, fatSector,
    Option.map_some]
  rw [if_neg]
  simp only [Bool.or_eq_true, decide_eq_true_eq]
  omega

end Volume

theorem followFatChain_valid (valid : exfatClusterValid m c) (found : followFatChain m d c i = some c') :
    exfatClusterValid m c' := by
  induction i generalizing c with
  | zero =>
    rw [followFatChain, Option.some.injEq] at found
    exact found ▸ valid
  | succ i ih =>
    obtain ⟨next, _, goes⟩ := Option.bind_eq_some_iff.mp found
    split at goes
    · cases goes
    · rename_i stops
      simp only [Bool.or_eq_true, not_or, Bool.not_eq_true, Bool.not_eq_false'] at stops
      exact ih stops.2 goes

theorem followFatChain_succ (vol : Volume m d) (valid : exfatClusterValid m c) :
    followFatChain m d c (i + 1) =
      if decide (0xfffffff8 ≤ fatWord m d c) || !exfatClusterValid m (fatWord m d c) then none
      else followFatChain m d (fatWord m d c) i := by
  rw [followFatChain, vol.exfatReadFatEntry_eq valid, Option.bind_eq_bind, Option.bind_some]

theorem exfatResolveCluster_zero_flags :
    exfatResolveCluster m d c 0 i =
      if exfatClusterValid m c then followFatChain m d c i else none := by
  cases valid : exfatClusterValid m c <;> simp [exfatResolveCluster, valid]

theorem exfatResolveCluster_valid (found : exfatResolveCluster m d c 0 i = some c') : exfatClusterValid m c' := by
  rw [exfatResolveCluster_zero_flags] at found
  split at found
  · rename_i valid
    exact followFatChain_valid valid found
  · cases found

def fatLink (m : Mount) (d : Device) (c : Nat) : Option Nat :=
  (exfatReadFatEntry m d c).bind fun next =>
    if decide (0xfffffff8 ≤ next) || !exfatClusterValid m next then none else some next

theorem followFatChain_eq_steps (c i : Nat) : followFatChain m d c i = steps (fatLink m d) i c := by
  induction i generalizing c with
  | zero => rfl
  | succ i ih =>
    rw [followFatChain, steps, fatLink, Option.bind_assoc]
    congr 1
    funext next
    split
    · rfl
    · exact ih next

section Chains

variable {first j b : Nat}

theorem exfatResolveCluster_eq_steps (valid : exfatClusterValid m first) (k : Nat) :
    exfatResolveCluster m d first 0 k = steps (fatLink m d) k first := by
  rw [exfatResolveCluster_zero_flags, if_pos valid, followFatChain_eq_steps]

theorem exfatResolveCluster_first (chain : exfatResolveCluster m d first 0 i = some b) :
    exfatClusterValid m first := by
  rw [exfatResolveCluster_zero_flags] at chain
  split at chain
  · assumption
  · cases chain

/-- A chain that has a cluster has all the clusters before it. -/
theorem exfatResolveCluster_earlier (chain : exfatResolveCluster m d first 0 i = some b) (before : j ≤ i) :
    ∃ c, exfatResolveCluster m d first 0 j = some c := by
  have valid := exfatResolveCluster_first chain
  rw [exfatResolveCluster_eq_steps valid] at chain
  obtain ⟨c, found⟩ := steps_isSome chain before
  exact ⟨c, (exfatResolveCluster_eq_steps valid j).trans found⟩

theorem exfatResolveCluster_distinct (ends : exfatResolveCluster m d first 0 stop = none)
    (here : exfatResolveCluster m d first 0 i = some b) (there : exfatResolveCluster m d first 0 j = some b) :
    i = j := by
  have valid := exfatResolveCluster_first here
  rw [exfatResolveCluster_eq_steps valid] at ends here there
  exact steps_distinct ends here there

/-- A chain that has no cluster twice has no more clusters than the volume. -/
theorem exfatResolveCluster_lt (counted : m.clusterEnd = m.exfat.clusterCount + 2)
    (distinct : ∀ i j b, exfatResolveCluster m d first 0 i = some b →
      exfatResolveCluster m d first 0 j = some b → i = j)
    (chain : exfatResolveCluster m d first 0 i = some b) : i < m.exfat.clusterCount := by
  have follow := exfatResolveCluster_eq_steps (d := d) (exfatResolveCluster_first chain)
  have short := @steps_lt_card _ (fatLink m d) (Finset.Ico 2 (m.exfat.clusterCount + 2)) first
    (fun i j b here there => distinct i j b ((follow i).trans here) ((follow j).trans there))
    (fun n b reached => by
      obtain ⟨-, low, high⟩ := exfatClusterValid_iff.mp (exfatResolveCluster_valid ((follow n).trans reached))
      exact Finset.mem_Ico.mpr ⟨low, counted ▸ high⟩)
    i b (follow i ▸ chain)
  rwa [Nat.card_Ico] at short

end Chains

theorem followFatChain_congr (vol : Volume m d) (vol' : Volume m d') (valid : exfatClusterValid m c)
    (same : ∀ k c', k < i → followFatChain m d c k = some c' → fatWord m d' c' = fatWord m d c') :
    followFatChain m d' c i = followFatChain m d c i := by
  induction i generalizing c with
  | zero => rfl
  | succ i ih =>
    have here := same 0 c (Nat.succ_pos i) rfl
    rw [followFatChain_succ vol valid, followFatChain_succ vol' valid, here]
    split
    · rfl
    · rename_i goes
      have next : exfatClusterValid m (fatWord m d c) := by
        simp only [Bool.or_eq_true, not_or, Bool.not_eq_true, Bool.not_eq_false'] at goes
        exact goes.2
      refine ih next fun j c' before found => same (j + 1) c' (Nat.succ_lt_succ before) ?_
      rw [followFatChain_succ vol valid, if_neg goes]
      exact found

/-! ## Devices that agree on the reserved clusters -/

/-- `d` differs from `d₀` in sector contents only, and not in the links of the directory and
    bitmap chains. -/
structure SameReserved (m : Mount) (d₀ d : Device) : Prop where
  shape : d₀.SameShape d
  links : ∀ c, Reserved m d₀ c → fatWord m d c = fatWord m d₀ c

namespace SameReserved

variable {d₀ : Device} (agree : SameReserved m d₀ d)

include agree

variable (vol : Volume m d₀)

include vol

theorem volume : Volume m d :=
  vol.ofShape agree.shape

private theorem resolve_eq {first : Nat}
    (reserved : ∀ i c, exfatResolveCluster m d₀ first 0 i = some c → Reserved m d₀ c) (i : Nat) :
    exfatResolveCluster m d first 0 i = exfatResolveCluster m d₀ first 0 i := by
  simp only [exfatResolveCluster_zero_flags] at reserved ⊢
  split
  · rename_i valid
    simp only [valid] at reserved
    exact followFatChain_congr vol (agree.volume vol) valid
      fun j c _ found => agree.links c (reserved j c found)
  · rfl

theorem rootChain_eq (i : Nat) : rootChain m d i = rootChain m d₀ i :=
  resolve_eq agree vol (fun j _ found => .inl ⟨j, found⟩) i

theorem bitmapChain_eq (i : Nat) : bitmapChain m d i = bitmapChain m d₀ i :=
  resolve_eq agree vol (fun j _ found => .inr ⟨j, found⟩) i

theorem locate_eq : locateExfatBitmapBit m d c = locateExfatBitmapBit m d₀ c := by
  have chain := agree.bitmapChain_eq vol ((c - 2) / 8 / m.clusterSize)
  simp only [bitmapChain] at chain
  simp only [locateExfatBitmapBit, chain]

end SameReserved

/-- Where `locate_exfat_bitmap_bit_for_test` puts a bit. -/
theorem locateExfatBitmapBit_spec (vol : Volume m d) (located : locateExfatBitmapBit m d c = some p) :
    p.offset < 512 ∧ p.bit < 8 ∧
      ∃ b j, bitmapChain m d ((c - 2) / 8 / m.clusterSize) = some b ∧ j < m.sectorsPerCluster ∧
        j = (c - 2) / 8 % m.clusterSize / 512 ∧ p.offset = (c - 2) / 8 % m.clusterSize % 512 ∧
        p.bit = (c - 2) % 8 ∧ p.lba = heapSector m b j := by
  simp only [locateExfatBitmapBit] at located
  split at located
  · cases located
  · split at located
    · cases located
    · rename_i b resolved
      split at located
      · cases located
      · rename_i reached
        obtain ⟨_, inside⟩ := not_or.mp reached
        rw [Option.some.injEq] at located
        subst located
        have inside := Nat.not_le.mp inside
        refine ⟨Nat.mod_lt _ (by omega), Nat.mod_lt _ (by omega), b, _, resolved, inside, rfl, rfl, rfl, ?_⟩
        exact vol.wrap64_lba (exfatResolveCluster_valid resolved) inside

theorem readExfatBitmapBit_eq (vol : Volume m d)
    (located : locateExfatBitmapBit m d c = some p) : readExfatBitmapBit m d c = some (bitAt d p) := by
  obtain ⟨_, _, b, j, chain, inside, _, _, _, place⟩ := locateExfatBitmapBit_spec vol located
  have accepted := place ▸ vol.io.heap b j (exfatResolveCluster_valid chain) inside
  simp [readExfatBitmapBit, located, blockRead, accepted, bitAt]

/-! ## Patches of the three views -/

def fatPatch (m : Mount) (c v : Nat) : Nat × Patch := (fatSector m c, .u32 (c * 4 % 512) v)

def bitPatch (p : BitPlace) (set : Bool) : Nat × Patch := (p.lba, .bit p.offset p.mask set)

theorem u32_apply (inside : off + 4 ≤ 512) : (Patch.u32 off v).apply s = some (s.write off (le32 v)) := by
  have small : wrap64 (off + 4) ≤ 512 := by
    simp only [wrap64]
    omega
  simp [Patch.apply, Nat.not_lt.mpr small]

theorem bit_apply (inside : off < 512) (set : Bool) :
    (Patch.bit off mask set).apply s =
      some (s.set off (if set then s.get off ||| mask else s.get off &&& ~~~ mask)) := by
  simp [Patch.apply, Nat.not_le.mpr inside]

theorem fatPatch_applies (m : Mount) : ((fatPatch m c v).2.apply s).isSome := by
  simp only [fatPatch]
  rw [u32_apply (by omega)]
  rfl

theorem bitPatch_applies (inside : p.offset < 512) {set : Bool} : ((bitPatch p set).2.apply s).isSome := by
  simp only [bitPatch]
  rw [bit_apply inside]
  rfl

theorem fatWord_patch_fat :
    fatWord m (d.patch (fatPatch m c v).1 (fatPatch m c v).2) c' =
      if c' = c then v % 2 ^ 32 else fatWord m d c' := by
  simp only [fatPatch, Device.patch]
  rw [u32_apply (by omega), Option.getD_some]
  by_cases here : c' = c
  · subst here
    rw [if_pos rfl, fatWord, Device.put_data_self, Buf.readLe32_write_self (by omega)]
  · rw [if_neg here]
    by_cases sameSector : fatSector m c' = fatSector m c
    · simp only [fatSector] at sameSector
      simp only [fatWord, fatSector, sameSector, Device.put_data_self]
      rw [Buf.readLe32_write_outside]
      rw [length_le32]
      omega
    · rw [fatWord, Device.put_data_other sameSector, fatWord]

theorem bitAt_patch_bit (inside : p.offset < 512) (small : p.bit < 8) (small' : q.bit < 8) {set : Bool} :
    bitAt (d.patch (bitPatch p set).1 (bitPatch p set).2) q =
      if q.lba = p.lba ∧ q.offset = p.offset ∧ q.bit = p.bit then set else bitAt d q := by
  simp only [bitPatch, Device.patch]
  rw [bit_apply inside, Option.getD_some]
  by_cases sameSector : q.lba = p.lba
  · simp only [bitAt, sameSector, Device.put_data_self, true_and]
    by_cases sameByte : q.offset = p.offset
    · simp only [sameByte]
      rw [Buf.get_set_self inside]
      cases set with
      | true =>
        rw [if_pos rfl, BitPlace.mask, bitSet_or small small']
        by_cases sameBit : q.bit = p.bit <;> simp [sameBit]
      | false =>
        rw [if_neg (by simp), BitPlace.mask, bitSet_and_not small small']
        by_cases sameBit : q.bit = p.bit <;> simp [sameBit]
    · rw [Buf.get_set_other sameByte, if_neg fun h => sameByte h.1]
  · simp [bitAt, Device.put_data_other sameSector, sameSector]

theorem fatWord_put_heap (vol : Volume m d) (covered : c * 4 / 512 < m.exfat.fatLength)
    (valid' : exfatClusterValid m b) (inside : i < m.sectorsPerCluster) :
    fatWord m (d.put (heapSector m b i) s) c = fatWord m d c := by
  rw [fatWord, Device.put_data_other (vol.fat_ne_heapSector covered valid' inside), fatWord]

end TangPingOS
