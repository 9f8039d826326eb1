import TangPingOS.ClusterFiles
import TangPingOS.Exfat.Files
import TangPingOS.Exfat.Layout

/-! # Where the bytes of a file are read from

The reader takes a position of a file apart into a cluster, a sector of it and a byte. A file
without a FAT chain has its clusters in a row, and the number of a cluster is a sum in 32 bits,
whatever 64-bit position it is asked for. The copy loop yields the bytes that the file's
clusters hold.
-/

namespace TangPingOS

open Lib

section Geometry

variable {m : Mount}

/-- A position is a sector of the file and a byte of the sector. -/
theorem position_split (sized : m.clusterSize = m.sectorsPerCluster * 512) (pos : Nat) :
    pos / m.clusterSize * m.sectorsPerCluster + pos % m.clusterSize / 512 = pos / 512 ∧
      pos % m.clusterSize % 512 = pos % 512 := by
  have index : pos / m.clusterSize = pos / 512 / m.sectorsPerCluster := by
    rw [sized, Nat.mul_comm, Nat.div_div_eq_div_mul]
  have column : pos % m.clusterSize / 512 = pos / 512 % m.sectorsPerCluster := by
    rw [sized, Nat.mul_comm, Nat.mod_mul_right_div_self]
  refine ⟨?_, by rw [sized, Nat.mod_mul_left_mod]⟩
  rw [index, column, Nat.mul_comm]
  exact Nat.div_add_mod _ _

end Geometry

/-- The number of cluster `index` does not come out of a sum that left 32 bits. -/
def Unwrapped (m : Mount) (first index : Nat) : Prop :=
  exfatClusterValid m first →
    first + index < 2 ^ 32 ∨ exfatClusterValid m ((first + index) % 2 ^ 32) = false

def InRow (m : Mount) (d : Device) (first flags index : Nat) : Prop :=
  ∀ c, exfatResolveCluster m d first flags index = some c →
    c = first + index ∧ c < m.exfat.clusterCount + 2

/-- The byte of the device at which the reader finds a position of a file: sector and offset. -/
def exfatBytePlace (m : Mount) (d : Device) (e : RootEntry) (pos : Nat) : Option (Nat × Nat) :=
  if m.clusterSize = 0 then none
  else (exfatFileSector m d e pos).map fun lba => (lba, pos % m.clusterSize % 512)

section Contiguous

variable {m : Mount} {d : Device} {first flags index : Nat} (contiguous : flags &&& 0x02 ≠ 0)

include contiguous

theorem exfatResolveCluster_contiguous :
    exfatResolveCluster m d first flags index = some c ↔
      exfatClusterValid m first ∧ c = (first + index) % 2 ^ 32 ∧
        exfatClusterValid m c := by
  have flag := bne_iff_ne.mpr contiguous
  have sum : (first + index % 2 ^ 32) % 2 ^ 32 = (first + index) % 2 ^ 32 := Nat.add_mod_mod _ _ _
  cases valid : exfatClusterValid m first with
  | false => simp [exfatResolveCluster, valid]
  | true =>
    simp only [exfatResolveCluster, valid, flag, sum, Bool.not_true, Bool.false_eq_true, if_false,
      if_true, Option.ite_none_right_eq_some, Option.some.injEq, true_and]
    constructor
    · rintro ⟨inside, rfl⟩
      exact ⟨rfl, inside⟩
    · rintro ⟨rfl, inside⟩
      exact ⟨inside, rfl⟩

theorem inRow_iff (geometry : exfatGeometryValid m) (counted : m.exfat.clusterCount < 2 ^ 32) :
    InRow m d first flags index ↔ Unwrapped m first index := by
  have ends := exfatGeometryValid.clusterEnd_eq geometry counted
  constructor
  · intro row valid
    cases inside : exfatClusterValid m ((first + index) % 2 ^ 32) with
    | false => exact .inr rfl
    | true =>
      obtain ⟨sum, -⟩ := row _ ((exfatResolveCluster_contiguous contiguous).mpr ⟨valid, rfl, inside⟩)
      exact .inl (by omega)
  · intro unwrapped c found
    obtain ⟨valid, rfl, inside⟩ := (exfatResolveCluster_contiguous contiguous).mp found
    obtain small | outside := unwrapped valid
    · obtain ⟨-, -, high⟩ := exfatClusterValid_iff.mp inside
      exact ⟨Nat.mod_eq_of_lt small, ends ▸ high⟩
    · rw [inside] at outside
      cases outside

end Contiguous

/-- The reader finds a position of a contiguous file at a fixed distance from its first sector. -/
theorem exfatBytePlace_eq (contiguous : e.streamFlags &&& 0x02 ≠ 0) (geometry : exfatGeometryValid m)
    (counted : m.exfat.clusterCount < 2 ^ 32) (unwrapped : Unwrapped m e.firstCluster (pos / m.clusterSize))
    (found : exfatBytePlace m d e pos = some x) :
    x = (wrap64 (m.exfat.clusterHeapOffset + (e.firstCluster - 2) * m.sectorsPerCluster + pos / 512),
      pos % 512) := by
  unfold exfatBytePlace at found
  split at found
  · cases found
  rename_i nonzero
  obtain ⟨row, column⟩ := position_split (clusterSize_eq nonzero) pos
  obtain ⟨lba, sector, rfl⟩ := Option.map_eq_some_iff.mp found
  obtain ⟨c, resolved, sector⟩ := Option.bind_eq_some_iff.mp sector
  obtain ⟨sum, -⟩ := (inRow_iff contiguous geometry counted).mpr unwrapped c resolved
  obtain ⟨valid, -, inside⟩ := (exfatResolveCluster_contiguous contiguous).mp resolved
  obtain ⟨-, low, -⟩ := exfatClusterValid_iff.mp valid
  simp only [exfatClusterLba, inside, if_true] at sector
  split at sector
  · cases sector
  rw [Option.some.injEq] at sector
  have distance : (c - 2) * m.sectorsPerCluster =
      (e.firstCluster - 2) * m.sectorsPerCluster + pos / m.clusterSize * m.sectorsPerCluster := by
    rw [← Nat.add_mul, sum, Nat.sub_add_comm low]
  rw [← sector]
  simp only [wrap64, Nat.mod_add_mod]
  congr 2
  omega

/-- A cluster of a contiguous file is where its index says, and different positions of the file are
    different bytes of the device, exactly as long as no cluster number has left 32 bits. -/
theorem contiguous_files_never_alias {m : Mount} {d : Device} (geometry : exfatGeometryValid m = true)
    (counted : m.exfat.clusterCount < 2 ^ 32) :
    (∀ first flags index, first < 2 ^ 32 → flags &&& 0x02 ≠ 0 → index < 2 ^ 64 →
      (InRow m d first flags index ↔ Unwrapped m first index)) ∧
    ∀ e : RootEntry, e.streamFlags &&& 0x02 ≠ 0 → ∀ p q, p < 2 ^ 64 → q < 2 ^ 64 → p ≠ q →
      Unwrapped m e.firstCluster (p / m.clusterSize) → Unwrapped m e.firstCluster (q / m.clusterSize) →
      ∀ place, exfatBytePlace m d e p = some place → exfatBytePlace m d e q ≠ some place := by
  refine ⟨fun first flags index _ contiguous _ => inRow_iff contiguous geometry counted, ?_⟩
  intro e contiguous p q smallP smallQ apart rowP rowQ place foundP foundQ
  have placeP := exfatBytePlace_eq contiguous geometry counted rowP foundP
  have placeQ := exfatBytePlace_eq contiguous geometry counted rowQ foundQ
  rw [placeP, Prod.mk.injEq] at placeQ
  -- the sectors are less than 2^55 apart, so the wrap of the address does not bring them together
  obtain ⟨sectors, offsets⟩ := placeQ
  simp only [wrap64] at sectors
  omega

def sixteenClusters : Mount where
  blockSize := 512
  exfat :=
    { present := true
      fatOffset := 1
      fatLength := 1
      clusterHeapOffset := 8
      clusterCount := 16
      rootDirCluster := 2
      bytesPerSectorShift := 9 }

def blankDevice : Device where
  blockCount := 24
  bounded := by decide
  writable := true
  fault _ := false
  data _ := Buf.zero

/-- A contiguous file from cluster 5 on whose entry claims all of 64 bits. -/
def endlessEntry : RootEntry :=
  { name := [0x45], size := 2 ^ 64 - 1, firstCluster := 5, streamFlags := 0x03 }

theorem contiguous_files_never_alias_sixteen :
    InRow sixteenClusters blankDevice 5 0x03 7 ∧
      ∀ place, exfatBytePlace sixteenClusters blankDevice endlessEntry 0 = some place →
        exfatBytePlace sixteenClusters blankDevice endlessEntry 3584 ≠ some place := by
  obtain ⟨rows, apart⟩ := @contiguous_files_never_alias sixteenClusters blankDevice (by decide) (by decide)
  exact ⟨(rows 5 0x03 7 (by decide) (by decide) (by decide)).mpr fun _ => .inl (by decide),
    apart endlessEntry (by decide) 0 3584 (by decide) (by decide) (by decide) (fun _ => .inl (by decide))
      (fun _ => .inl (by decide))⟩

/-- Cluster 2^32 of the file is its first cluster again, so byte 2^41 is read where byte 0 is. -/
theorem contiguous_file_wraps_around :
    exfatGeometryValid sixteenClusters = true ∧
      exfatResolveCluster sixteenClusters blankDevice 5 0x03 (2 ^ 32) = some 5 ∧
      ¬InRow sixteenClusters blankDevice 5 0x03 (2 ^ 32) ∧
      exfatBytePlace sixteenClusters blankDevice endlessEntry 0 = some (11, 0) ∧
      exfatBytePlace sixteenClusters blankDevice endlessEntry (2 ^ 41) = some (11, 0) := by
  have again : exfatResolveCluster sixteenClusters blankDevice 5 0x03 (2 ^ 32) = some 5 := by decide
  refine ⟨by decide, again, ?_, by decide, by decide⟩
  intro row
  obtain ⟨sum, -⟩ := row 5 again
  omega

section

variable (m : Mount) (d : Device) (e : RootEntry)

/-- A regular file all of whose clusters are found and can be read. -/
structure ExfatReadable : Prop where
  geometry : exfatGeometryValid m
  sized : m.clusterSize ≠ 0
  file : e.isDir = false
  clusters : ∀ i, 0 < e.size → i ≤ (e.size - 1) / m.clusterSize → ∃ c,
    exfatResolveCluster m d e.firstCluster e.streamFlags i = some c ∧
      ∀ j < m.sectorsPerCluster, d.accepts (wrap64 (exfatClusterLba m c + j))

/-- Sector `j` of cluster `i` of a file. -/
def exfatSectorOf (i j : Nat) : Nat :=
  wrap64 (exfatClusterLba m ((exfatResolveCluster m d e.firstCluster e.streamFlags i).getD 0) + j)

def exfatFileBytes : Bytes :=
  clustersBytes d m.sectorsPerCluster (exfatSectorOf m d e) ((e.size - 1) / m.clusterSize + 1)

end

namespace ExfatReadable

variable {m : Mount} {d : Device} {e : RootEntry} (ok : ExfatReadable m d e)

include ok

theorem sectorsPerCluster_pos : 0 < m.sectorsPerCluster :=
  exfatGeometryValid.sectorsPerCluster_pos ok.geometry

/-- The reader finds the sector of every position of the file and can read it. -/
theorem exfatFileSector_eq_some (inside : pos < e.size) :
    exfatFileSector m d e pos = some (sectorAt m.sectorsPerCluster (exfatSectorOf m d e) pos) ∧
      d.accepts (sectorAt m.sectorsPerCluster (exfatSectorOf m d e) pos) := by
  have sized := clusterSize_eq ok.sized
  have positive := ok.sectorsPerCluster_pos
  obtain ⟨c, resolved, accepted⟩ := ok.clusters (pos / m.clusterSize) (by omega)
    (Nat.div_le_div_right (by omega))
  have column : pos % m.clusterSize / 512 < m.sectorsPerCluster := by
    apply Nat.div_lt_of_lt_mul
    rw [Nat.mul_comm, ← sized]
    exact Nat.mod_lt _ (by omega)
  have place : sectorAt m.sectorsPerCluster (exfatSectorOf m d e) pos =
      wrap64 (exfatClusterLba m c + pos % m.clusterSize / 512) := by
    rw [sectorAt, ← sized, exfatSectorOf, resolved, Option.getD_some]
  have isLba : exfatClusterLba m c ≠ u64Max := Device.ne_of_accepts (accepted 0 positive)
  rw [place]
  refine ⟨?_, accepted _ column⟩
  simp [exfatFileSector, resolved, isLba, Nat.not_le.mpr column]

theorem readFrom_eq (inside : offset < e.size) :
    readFrom m d e offset bufferLen bufferLen [] =
      some (window (byteAt d m.sectorsPerCluster (exfatSectorOf m d e)) offset
        (min bufferLen (e.size - offset))) := by
  apply loop_window _ some
  · intro fuel out whole
    cases fuel with
    | zero => rfl
    | succ fuel => rw [readFrom, if_neg (by omega)]
  · intro fuel out more
    obtain ⟨found, accepted⟩ := ok.exfatFileSector_eq_some (show offset + out.length < e.size by omega)
    obtain ⟨-, column⟩ := position_split (clusterSize_eq ok.sized) (offset + out.length)
    refine ⟨min (min (bufferLen - out.length) (512 - (offset + out.length) % 512))
      (e.size - (offset + out.length)), by omega, by omega, ?_⟩
    rw [readFrom, if_pos (by omega)]
    simp only [found, column, blockRead, accepted, if_true, Option.bind_some]
    rw [slice_eq_window _ _ _ (by omega)]
  · omega

theorem readExfatRootFile_eq (filled : 0 < e.size) (offset bufferLen : Nat) :
    readExfatRootFile m d e offset bufferLen =
      some (window (byteAt d m.sectorsPerCluster (exfatSectorOf m d e)) offset
        (min bufferLen (e.size - offset))) := by
  have valid : exfatClusterValid m e.firstCluster := by
    obtain ⟨c, resolved, -⟩ := ok.clusters 0 filled (Nat.zero_le _)
    cases first : exfatClusterValid m e.firstCluster with
    | true => rfl
    | false => simp [exfatResolveCluster, first] at resolved
  simp only [readExfatRootFile, ok.file, valid, beq_eq_false_iff_ne.mpr ok.sized, Bool.not_true,
    Bool.or_self, Bool.false_eq_true, if_false]
  split
  · have empty : min bufferLen (e.size - offset) = 0 := by omega
    rw [empty, window_zero]
  · exact ok.readFrom_eq (by omega)

theorem sliceReads : SliceReads (readExfatRootFile m d e) (exfatFileBytes m d e) e.size := by
  apply SliceReads.of_windows ok.sectorsPerCluster_pos
  · have sized := clusterSize_eq ok.sized
    have last := Nat.lt_div_mul_add (a := e.size - 1) (b := m.clusterSize) (Nat.pos_of_ne_zero ok.sized)
    rw [← sized, Nat.succ_mul]
    omega
  · exact ok.readExfatRootFile_eq

end ExfatReadable

end TangPingOS
