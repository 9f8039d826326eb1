import TangPingOS.Exfat.Effects

/-! # The bitmap scan of the mount

`count_exfat_bitmap_sector_used` walks the bitmap bit by bit through the sectors of
its chain; `locate_exfat_bitmap_bit_for_test` computes where a single bit is. The scan
meets the bits that lookups find, in cluster order, so the plan it leaves is the list of
the first three free clusters.
-/

namespace TangPingOS

open Lib

variable {st st' : BitmapScan} {used : Bool} {d : Device} {m : Mount} {b c j k n remaining : Nat}

/-! ## Records that differ in plans only -/

def Mount.layout (m : Mount) : Mount :=
  { m with exfat := { m.exfat with
      allocationBitmap :=
        { present := m.exfat.allocationBitmap.present
          cluster := m.exfat.allocationBitmap.cluster
          size := m.exfat.allocationBitmap.size }
      allocationPlan := {}
      createPlan := {}
      transaction := {}
      patched := {}
      commit := {} } }

theorem followFatChain_layout : followFatChain m.layout d c i = followFatChain m d c i := by
  induction i generalizing c with
  | zero => rfl
  | succ i ih =>
    simp only [followFatChain, ih]
    rfl

theorem exfatResolveCluster_layout :
    exfatResolveCluster m.layout d c flags i = exfatResolveCluster m d c flags i := by
  simp only [exfatResolveCluster, followFatChain_layout]
  rfl

theorem scanBitmapSectors_layout :
    scanBitmapSectors m.layout d lba k left remaining st =
      scanBitmapSectors m d lba k left remaining st := by
  induction left generalizing k remaining st with
  | zero => rfl
  | succ left ih =>
    simp only [scanBitmapSectors, ih]
    rfl

theorem scanBitmapClusters_layout :
    scanBitmapClusters m.layout d fuel i remaining st = scanBitmapClusters m d fuel i remaining st := by
  induction fuel generalizing i remaining st with
  | zero => rfl
  | succ fuel ih =>
    simp only [scanBitmapClusters, ih, exfatResolveCluster_layout, scanBitmapSectors_layout]
    rfl

theorem scanSlotClusters_layout : scanSlotClusters m.layout d i left r = scanSlotClusters m d i left r := by
  induction left generalizing i r with
  | zero => rfl
  | succ left ih =>
    simp only [scanSlotClusters, ih, exfatResolveCluster_layout]
    rfl

theorem searchRootDirectorySlots_layout : searchRootDirectorySlots m.layout d = searchRootDirectorySlots m d := by
  simp only [searchRootDirectorySlots, scanSlotClusters_layout]
  rfl

section SameLayout

variable {m' : Mount} (same : m.layout = m'.layout)

include same

theorem clusterSize_congr : m.clusterSize = m'.clusterSize := by
  have sizes : m.layout.clusterSize = m'.layout.clusterSize := by rw [same]
  exact sizes

theorem resolve_congr : exfatResolveCluster m d c flags i = exfatResolveCluster m' d c flags i := by
  rw [← exfatResolveCluster_layout, same, exfatResolveCluster_layout]

theorem exfatClusterLba_congr : exfatClusterLba m c = exfatClusterLba m' c := by
  have lbas : exfatClusterLba m.layout c = exfatClusterLba m'.layout c := by rw [same]
  exact lbas

theorem fatSector_congr : fatSector m c = fatSector m' c := by
  have sectors : fatSector m.layout c = fatSector m'.layout c := by rw [same]
  exact sectors

theorem bitmapChain_congr : bitmapChain m d i = bitmapChain m' d i := by
  have firsts : m.layout.exfat.allocationBitmap.cluster = m'.layout.exfat.allocationBitmap.cluster := by
    rw [same]
  simp only [Mount.layout] at firsts
  rw [bitmapChain, bitmapChain, resolve_congr same, firsts]

theorem scan_congr :
    scanBitmapClusters m d m.exfat.clusterCount 0 m.exfat.allocationBitmap.size {} =
      scanBitmapClusters m' d m'.exfat.clusterCount 0 m'.exfat.allocationBitmap.size {} := by
  have counts : m.layout.exfat.clusterCount = m'.layout.exfat.clusterCount := by rw [same]
  have sizes : m.layout.exfat.allocationBitmap.size = m'.layout.exfat.allocationBitmap.size := by
    rw [same]
  simp only [Mount.layout] at counts sizes
  rw [← scanBitmapClusters_layout, same, scanBitmapClusters_layout, counts, sizes]

theorem slots_congr : searchRootDirectorySlots m d = searchRootDirectorySlots m' d := by
  rw [← searchRootDirectorySlots_layout, same, searchRootDirectorySlots_layout]

end SameLayout

/-- The clusters among the first `n` whose bit is clear. -/
def freeClusters (m : Mount) (d : Device) (n : Nat) : List Nat :=
  ((List.range n).filter fun bit => !bitAt d (place m d (bit + 2))).map (· + 2)

theorem freeClusters_succ :
    freeClusters m d (n + 1) =
      freeClusters m d n ++ if bitAt d (place m d (n + 2)) then [] else [n + 2] := by
  simp only [freeClusters, List.range_succ]
  cases used : bitAt d (place m d (n + 2)) <;> simp [used]

theorem mem_freeClusters (member : c ∈ freeClusters m d n) : 2 ≤ c ∧ c < n + 2 ∧ bitAt d (place m d c) = false := by
  simp only [freeClusters, List.mem_map, List.mem_filter, List.mem_range, Bool.not_eq_true'] at member
  obtain ⟨bit, ⟨inside, clear⟩, rfl⟩ := member
  exact ⟨by omega, by omega, clear⟩

theorem nodup_freeClusters : (freeClusters m d n).Nodup :=
  (List.nodup_range.filter _).map (add_left_injective 2)

/-- The first clear bits do not depend on how far the scan goes on. -/
theorem freeClusters_prefix (m : Mount) (d : Device) (le : n ≤ n') :
    freeClusters m d n <+: freeClusters m d n' := by
  induction n', le using Nat.le_induction with
  | base => exact List.prefix_refl _
  | succ k _ ih =>
    rw [freeClusters_succ]
    exact ih.trans (List.prefix_append _ _)

/-- Among the first `n` clusters, those whose bit a lookup finds to be `used`, in order. -/
def lookups (m : Mount) (d : Device) (used : Bool) (n : Nat) : List Nat :=
  (List.range' 2 n).filter fun c => readExfatBitmapBit m d c == some used

theorem lookups_succ (found : readExfatBitmapBit m d (n + 2) = some bit) (used : Bool) :
    lookups m d used (n + 1) = lookups m d used n ++ if bit = used then [n + 2] else [] := by
  have last : 2 + 1 * n = n + 2 := by omega
  rw [lookups, lookups, List.range'_concat, last]
  cases bit <;> cases used <;> simp [found]

theorem two_le_of_mem_lookups (member : c ∈ lookups m d used n) : 2 ≤ c := by
  simp only [lookups, List.mem_filter, List.mem_range'_1] at member
  exact member.1.1

theorem take_append_singleton :
    (cs ++ [c]).take 3 =
      if (cs.take 3).length < exfatAllocPlanClusterCount then cs.take 3 ++ [c] else cs.take 3 := by
  simp only [List.length_take, exfatAllocPlanClusterCount]
  by_cases short : cs.length < 3
  · rw [if_pos (by omega), List.take_of_length_le (Nat.le_of_lt short),
      List.take_of_length_le (by rw [List.length_append]; exact short)]
  · rw [if_neg (by omega), List.take_append_of_le_length (Nat.not_lt.mp short)]

/-- What the scan and a lookup rely on alike. -/
structure Scannable (m : Mount) : Prop where
  geometry : exfatGeometryValid m
  counted : m.clusterEnd = m.exfat.clusterCount + 2
  blockSize : m.blockSize = 512
  sized : m.clusterSize = m.sectorsPerCluster * 512
  positive : 0 < m.sectorsPerCluster
  present : m.exfat.allocationBitmap.present

/-- The counters after the first `bitIndex` bits are those of as many lookups. -/
structure Tallied (m : Mount) (d : Device) (st : BitmapScan) : Prop where
  within : st.bitIndex ≤ m.exfat.clusterCount
  found : ∀ c, 2 ≤ c → c < st.bitIndex + 2 → ∃ used, readExfatBitmapBit m d c = some used
  used : st.used = (lookups m d true st.bitIndex).length
  firstFree : st.firstFree = (lookups m d false st.bitIndex).headD 0
  plan : st.plan = (lookups m d false st.bitIndex).take 3

theorem Tallied.start : Tallied m d {} :=
  ⟨Nat.zero_le _, fun _ low high => absurd high (Nat.not_lt.mpr low), rfl, rfl, rfl⟩

section Scan

variable (ground : Scannable m)

include ground

theorem Tallied.step (tallied : Tallied m d st) (inside : st.bitIndex < m.exfat.clusterCount)
    (isBit : readExfatBitmapBit m d (st.bitIndex + 2) = some used) : Tallied m d (st.step used) := by
  have small : (st.bitIndex + 2) % 2 ^ 32 = st.bitIndex + 2 := by
    have counted := ground.counted
    have bounded : m.clusterEnd < 2 ^ 32 := Nat.mod_lt _ (by norm_num)
    exact Nat.mod_eq_of_lt (by omega)
  have found : ∀ c, 2 ≤ c → c < st.bitIndex + 1 + 2 → ∃ used, readExfatBitmapBit m d c = some used := by
    intro c low high
    by_cases last : c = st.bitIndex + 2
    · exact ⟨used, last ▸ isBit⟩
    · exact tallied.found c low (by omega)
  have usedNext := lookups_succ isBit true
  have freeNext := lookups_succ isBit false
  cases used with
  | true =>
    simp only [Bool.true_eq_false, if_false, List.append_nil] at usedNext freeNext
    exact
      { within := inside
        found := found
        used := by
          simp only [BitmapScan.step, if_true, usedNext, List.length_append, List.length_singleton]
          rw [tallied.used]
        firstFree := by
          simp only [BitmapScan.step, if_true, freeNext]
          exact tallied.firstFree
        plan := by
          simp only [BitmapScan.step, if_true, freeNext]
          exact tallied.plan }
  | false =>
    simp only [if_true, Bool.false_eq_true, if_false, List.append_nil] at usedNext freeNext
    exact
      { within := inside
        found := found
        used := by
          simp only [BitmapScan.step, Bool.false_eq_true, if_false, usedNext]
          exact tallied.used
        firstFree := by
          simp only [BitmapScan.step, Bool.false_eq_true, if_false, small, freeNext]
          rw [tallied.firstFree]
          cases free : lookups m d false st.bitIndex with
          | nil => rfl
          | cons c rest =>
            have low : 2 ≤ c := two_le_of_mem_lookups (free ▸ List.mem_cons_self)
            rw [List.headD_cons, if_neg (by omega), List.cons_append, List.headD_cons]
        plan := by
          simp only [BitmapScan.step, Bool.false_eq_true, if_false, small, freeNext]
          rw [take_append_singleton, ← tallied.plan] }

/-- One byte. `first` is the number of its lowest bit. -/
theorem scanBits_spec (first bit left : Nat) (bits : ∀ k < 8, first + k < m.exfat.clusterCount →
      readExfatBitmapBit m d (first + k + 2) = some (bitSet value k))
    (tallied : Tallied m d st)
    (here : st.bitIndex < m.exfat.clusterCount → st.bitIndex = first + bit) (inside : bit + left ≤ 8) :
    Tallied m d (scanBits m.exfat.clusterCount value bit left st) ∧
      ((scanBits m.exfat.clusterCount value bit left st).bitIndex < m.exfat.clusterCount →
        (scanBits m.exfat.clusterCount value bit left st).bitIndex = first + (bit + left)) := by
  induction left generalizing bit st with
  | zero => exact ⟨tallied, here⟩
  | succ left ih =>
    simp only [scanBits]
    split
    · rename_i going
      have position := here going
      have isBit := bits bit (by omega) (position ▸ going)
      rw [← position] at isBit
      obtain ⟨after, next⟩ := ih (bit + 1) (tallied.step ground going isBit)
        (fun _ => by cases bitSet value bit <;> simp [BitmapScan.step] <;> omega) (by omega)
      exact ⟨after, fun more => (next more).trans (by omega)⟩
    · rename_i ended
      exact ⟨tallied, fun more => absurd more ended⟩

/-- The bytes of one sector. `base` is the number of its first byte in the bitmap. -/
theorem scanBytes_spec (base byteIndex left : Nat)
    (bits : ∀ o < byteIndex + left, ∀ k < 8, (base + o) * 8 + k < m.exfat.clusterCount →
      readExfatBitmapBit m d ((base + o) * 8 + k + 2) = some (bitSet (s.get o) k))
    (tallied : Tallied m d st)
    (here : st.bitIndex < m.exfat.clusterCount → st.bitIndex = (base + byteIndex) * 8) :
    Tallied m d (scanBytes m.exfat.clusterCount s byteIndex left st) ∧
      ((scanBytes m.exfat.clusterCount s byteIndex left st).bitIndex < m.exfat.clusterCount →
        (scanBytes m.exfat.clusterCount s byteIndex left st).bitIndex =
          (base + (byteIndex + left)) * 8) := by
  induction left generalizing byteIndex st with
  | zero => exact ⟨tallied, here⟩
  | succ left ih =>
    simp only [scanBytes]
    split
    · obtain ⟨byteDone, next⟩ := scanBits_spec ground ((base + byteIndex) * 8) 0 8
        (fun k small => bits byteIndex (by omega) k small) tallied here (by omega)
      obtain ⟨after, last⟩ := ih (byteIndex + 1) (fun o low => bits o (by omega)) byteDone
        (fun more => (next more).trans (by omega))
      exact ⟨after, fun more => (last more).trans (by omega)⟩
    · rename_i ended
      exact ⟨tallied, fun more => absurd more ended⟩

/-- A lookup reads the bit out of the sector in which the scan finds it. -/
theorem sector_bits (chain : bitmapChain m d k = some b)
    (isLba : exfatClusterLba m b ≠ u64Max) (inside : j < m.sectorsPerCluster)
    (read : blockRead d (wrap64 (exfatClusterLba m b + j)) = some s) (small : o < 512) (smallBit : bit < 8)
    (covered : k * m.clusterSize + j * 512 + o < m.exfat.allocationBitmap.size)
    (counted : (k * m.clusterSize + j * 512 + o) * 8 + bit < m.exfat.clusterCount) :
    readExfatBitmapBit m d ((k * m.clusterSize + j * 512 + o) * 8 + bit + 2) =
      some (bitSet (s.get o) bit) := by
  have column : (j * 512 + o) / 512 = j := by omega
  have offset : (j * 512 + o) % 512 = o := by omega
  have sized := ground.sized
  have pos : 0 < m.clusterSize := by
    omega
  have row : j * 512 + o < m.clusterSize := by
    omega
  have valid : exfatClusterValid m ((k * m.clusterSize + j * 512 + o) * 8 + bit + 2) := by
    rw [exfatClusterValid_iff, ground.counted]
    exact ⟨ground.geometry, by omega, by omega⟩
  have byteNumber : ((k * m.clusterSize + j * 512 + o) * 8 + bit + 2 - 2) / 8 =
      (j * 512 + o) + m.clusterSize * k := by
    rw [Nat.mul_comm m.clusterSize k]
    omega
  have bitNumber : ((k * m.clusterSize + j * 512 + o) * 8 + bit + 2 - 2) % 8 = bit := by omega
  have clusterNumber : ((j * 512 + o) + m.clusterSize * k) / m.clusterSize = k := by
    rw [Nat.add_mul_div_left _ _ pos, Nat.div_eq_of_lt row, Nat.zero_add]
  have inFile : ¬m.exfat.allocationBitmap.size ≤ (j * 512 + o) + m.clusterSize * k := by
    omega
  have located : locateExfatBitmapBit m d ((k * m.clusterSize + j * 512 + o) * 8 + bit + 2) =
      some ⟨wrap64 (exfatClusterLba m b + j), o, bit⟩ := by
    simp only [locateExfatBitmapBit, valid, ground.present, ground.blockSize, byteNumber, bitNumber,
      clusterNumber, Nat.add_mul_mod_self_left, Nat.mod_eq_of_lt row, column, offset, inFile,
      beq_eq_false_iff_ne.mpr (Nat.ne_of_gt pos), bne_self_eq_false, Bool.not_true, decide_false, Bool.or_self,
      Bool.false_eq_true]
    rw [← bitmapChain, chain]
    simp [isLba, Nat.not_le.mpr inside]
  simp [readExfatBitmapBit, located, read]

/-- As long as the scan goes on, it is at byte `base` of the bitmap. -/
def ScanAt (m : Mount) (base remaining : Nat) (st : BitmapScan) : Prop :=
  0 < remaining → st.bitIndex < m.exfat.clusterCount →
    base + remaining = m.exfat.allocationBitmap.size ∧ st.bitIndex = base * 8

theorem scanBitmapSectors_spec (chain : bitmapChain m d k = some b) (isLba : exfatClusterLba m b ≠ u64Max)
    (inside : j + left = m.sectorsPerCluster) (tallied : Tallied m d st)
    (here : ScanAt m (k * m.clusterSize + j * 512) remaining st)
    (ran : scanBitmapSectors m d (exfatClusterLba m b) j left remaining st =
      some (remaining', st')) :
    Tallied m d st' ∧ ScanAt m ((k + 1) * m.clusterSize) remaining' st' := by
  induction left generalizing j remaining st with
  | zero =>
    obtain ⟨rfl, rfl⟩ := ran
    have full : j * 512 = m.clusterSize := by rw [ground.sized, ← inside, Nat.add_zero]
    rw [full, ← Nat.succ_mul] at here
    exact ⟨tallied, here⟩
  | succ left ih =>
    simp only [scanBitmapSectors] at ran
    split at ran
    · rename_i going
      have within : j < m.sectorsPerCluster := by omega
      obtain ⟨whole, position⟩ := here going.1 going.2
      obtain ⟨s, read, ran⟩ := Option.bind_eq_some_iff.mp ran
      obtain ⟨sectorDone, next⟩ := scanBytes_spec ground (k * m.clusterSize + j * 512) 0
        (min 512 remaining)
        (fun o small bit smallBit counted => sector_bits ground chain isLba within read (by omega) smallBit
          (by omega) counted) tallied (fun _ => position)
      have base : k * m.clusterSize + (j + 1) * 512 = k * m.clusterSize + j * 512 + 512 := by omega
      refine ih (by omega) sectorDone ?_ ran
      rw [base]
      exact fun rest more => ⟨by omega, (next more).trans (by omega)⟩
    · rename_i ended
      obtain ⟨rfl, rfl⟩ := ran
      exact ⟨tallied, fun rest more => absurd ⟨rest, more⟩ ended⟩

theorem scanBitmapClusters_spec (tallied : Tallied m d st) (here : ScanAt m (k * m.clusterSize) remaining st)
    (ran : scanBitmapClusters m d fuel k remaining st = some st') : Tallied m d st' := by
  induction fuel generalizing k remaining st with
  | zero =>
    rw [scanBitmapClusters, Option.some.injEq] at ran
    exact ran ▸ tallied
  | succ fuel ih =>
    simp only [scanBitmapClusters] at ran
    split at ran
    · obtain ⟨b, chain, ran⟩ := Option.bind_eq_some_iff.mp ran
      split at ran
      · cases ran
      rename_i isLba
      obtain ⟨⟨remaining', st''⟩, sectors, rests⟩ := Option.bind_eq_some_iff.mp ran
      obtain ⟨done, next⟩ := scanBitmapSectors_spec ground chain isLba (Nat.zero_add _) tallied
        (by rw [Nat.add_zero]; exact here) sectors
      exact ih done next rests
    · rw [Option.some.injEq] at ran
      exact ran ▸ tallied

theorem scan_tallied
    (ran : scanBitmapClusters m d m.exfat.clusterCount 0 m.exfat.allocationBitmap.size {} = some st) :
    Tallied m d st := by
  apply scanBitmapClusters_spec ground Tallied.start _ ran
  intro _ _
  simp

end Scan

variable (vol : Volume m d) (covers : ∀ c, exfatClusterValid m c → (locateExfatBitmapBit m d c).isSome)

include vol covers

theorem lookups_eq_freeClusters (inside : n ≤ m.exfat.clusterCount) : lookups m d false n = freeClusters m d n := by
  induction n with
  | zero => rfl
  | succ n ih =>
    have valid : exfatClusterValid m (n + 2) := vol.valid_iff.mpr ⟨by omega, by omega⟩
    obtain ⟨p, located⟩ := Option.isSome_iff_exists.mp (covers _ valid)
    have isPlace : place m d (n + 2) = p := by rw [place, located, Option.getD_some]
    rw [lookups_succ (readExfatBitmapBit_eq vol located), freeClusters_succ, ih (by omega), isPlace]
    cases bitAt d p <;> rfl

/-- The plan of the scan is the list of the first three free clusters. -/
theorem scan_plan (ran : scanBitmapClusters m d m.exfat.clusterCount 0 m.exfat.allocationBitmap.size {} = some st) :
    st.bitIndex ≤ m.exfat.clusterCount ∧ st.plan = (freeClusters m d st.bitIndex).take 3 := by
  have rootValid : exfatClusterValid m m.exfat.rootDirCluster := by
    have geometry := vol.geometry
    simp only [exfatGeometryValid, Bool.and_eq_true, decide_eq_true_eq] at geometry
    exact exfatClusterValid_iff.mpr ⟨vol.geometry, geometry.1.2, geometry.2⟩
  obtain ⟨p, located⟩ := Option.isSome_iff_exists.mp (covers _ rootValid)
  have present : m.exfat.allocationBitmap.present := by
    cases absent : m.exfat.allocationBitmap.present with
    | true => rfl
    | false => simp [locateExfatBitmapBit, absent] at located
  have tallied := scan_tallied
    ⟨vol.geometry, vol.counted, vol.blockSize, vol.sized, vol.sectorsPerCluster_pos, present⟩ ran
  exact ⟨tallied.within, lookups_eq_freeClusters vol covers tallied.within ▸ tallied.plan⟩

end TangPingOS
