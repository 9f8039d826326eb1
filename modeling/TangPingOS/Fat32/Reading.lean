import TangPingOS.Exfat.Reading
import TangPingOS.Fat32.Directory

/-! # Reading files

`read_fat32_file`, written apart from the reader of exFAT files: it clips the request first,
and what it has copied when something fails is its result. Both readers return the slice they
are asked for.
-/

namespace TangPingOS

open Lib

namespace Fat32Mount

def clusterSize (m : Fat32Mount) : Nat := m.fat32.sectorsPerCluster * 512

def fileSector (m : Fat32Mount) (d : Device) (e : RootEntry) (filePos : Nat) : Option Nat :=
  (m.resolveCluster d e.firstCluster (filePos / m.clusterSize)).bind fun cluster =>
    (m.clusterLba cluster).bind fun lba =>
      let sectorIndex := filePos % m.clusterSize / 512
      if m.fat32.sectorsPerCluster ≤ sectorIndex then none else some (lba + sectorIndex)

end Fat32Mount

section

variable (m : Fat32Mount) (d : Device) (e : RootEntry)

/-- The copy loop of `read_fat32_file`. A round copies a byte or more. -/
def readFat32From (offset bufferLen : Nat) : Nat → Bytes →
    Bytes
  | 0, out => out
  | fuel + 1, out =>
    if out.length < bufferLen then
      let filePos := offset + out.length
      let sectorOffset := filePos % m.clusterSize % 512
      let toCopy := min (bufferLen - out.length) (512 - sectorOffset)
      match (m.fileSector d e filePos).bind (blockRead d) with
      | none => out
      | some s => readFat32From offset bufferLen fuel (out ++ s.slice sectorOffset toCopy)
    else out

/-- `read_fat32_file`: what is copied. -/
def readFat32File (offset bufferLen : Nat) : Bytes :=
  if e.isDir || !m.clusterValid e.firstCluster || m.clusterSize == 0 || decide (e.size ≤ offset) then []
  else
    let bufferLen := min bufferLen (e.size - offset)
    readFat32From m d e offset bufferLen bufferLen []

/-- A regular file all of whose clusters are found and can be read. -/
structure Fat32Readable : Prop where
  geometry : m.geometryValid
  sized : m.clusterSize ≠ 0
  file : e.isDir = false
  clusters : ∀ i, 0 < e.size → i ≤ (e.size - 1) / m.clusterSize → ∃ c lba,
    m.resolveCluster d e.firstCluster i = some c ∧ m.clusterLba c = some lba ∧
      ∀ j < m.fat32.sectorsPerCluster, d.accepts (lba + j)

/-- Sector `j` of cluster `i` of a file. -/
def fat32SectorOf (i j : Nat) : Nat :=
  ((m.resolveCluster d e.firstCluster i).bind m.clusterLba).getD 0 + j

def fat32FileBytes : Bytes :=
  clustersBytes d m.fat32.sectorsPerCluster (fat32SectorOf m d e) ((e.size - 1) / m.clusterSize + 1)

end

namespace Fat32Readable

variable {m : Fat32Mount} {d : Device} {e : RootEntry} (ok : Fat32Readable m d e)

include ok

theorem sectorsPerCluster_pos : 0 < m.fat32.sectorsPerCluster := by
  have sized := ok.sized
  unfold Fat32Mount.clusterSize at sized
  omega

theorem fileSector_eq_some (inside : pos < e.size) :
    m.fileSector d e pos = some (sectorAt m.fat32.sectorsPerCluster (fat32SectorOf m d e) pos) ∧
      d.accepts (sectorAt m.fat32.sectorsPerCluster (fat32SectorOf m d e) pos) := by
  obtain ⟨c, lba, resolved, isLba, accepted⟩ := ok.clusters (pos / m.clusterSize) (by omega)
    (Nat.div_le_div_right (by omega))
  have column : pos % m.clusterSize / 512 < m.fat32.sectorsPerCluster := by
    apply Nat.div_lt_of_lt_mul
    rw [Nat.mul_comm]
    exact Nat.mod_lt _ (Nat.pos_of_ne_zero ok.sized)
  have place : sectorAt m.fat32.sectorsPerCluster (fat32SectorOf m d e) pos =
      lba + pos % m.clusterSize / 512 := by
    rw [sectorAt, ← Fat32Mount.clusterSize, fat32SectorOf, resolved, Option.bind_some, isLba,
      Option.getD_some]
  rw [place]
  refine ⟨?_, accepted _ column⟩
  simp [Fat32Mount.fileSector, resolved, isLba, Nat.not_le.mpr column]

theorem readFat32From_eq (inside : offset + bufferLen ≤ e.size) :
    readFat32From m d e offset bufferLen bufferLen [] =
      window (byteAt d m.fat32.sectorsPerCluster (fat32SectorOf m d e)) offset bufferLen := by
  apply loop_window _ id
  · intro fuel out whole
    cases fuel with
    | zero => rfl
    | succ fuel => rw [readFat32From, if_neg (Nat.not_lt.mpr whole), id]
  · intro fuel out more
    obtain ⟨found, accepted⟩ := ok.fileSector_eq_some (show offset + out.length < e.size by omega)
    have column : (offset + out.length) % m.clusterSize % 512 = (offset + out.length) % 512 := by
      rw [Fat32Mount.clusterSize, Nat.mod_mul_left_mod]
    refine ⟨min (bufferLen - out.length) (512 - (offset + out.length) % 512), by omega, by omega, ?_⟩
    rw [readFat32From, if_pos more]
    simp only [found, column, Option.bind_some, blockRead, accepted, if_true]
    rw [slice_eq_window _ _ _ (by omega)]
  · exact Nat.le_refl _

theorem readFat32File_eq (filled : 0 < e.size) :
    readFat32File m d e offset bufferLen =
      window (byteAt d m.fat32.sectorsPerCluster (fat32SectorOf m d e)) offset
        (min bufferLen (e.size - offset)) := by
  have valid : m.clusterValid e.firstCluster := by
    obtain ⟨c, lba, resolved, -⟩ := ok.clusters 0 filled (Nat.zero_le _)
    cases first : m.clusterValid e.firstCluster with
    | true => rfl
    | false => simp [Fat32Mount.resolveCluster, first] at resolved
  simp only [readFat32File, ok.file, valid, beq_eq_false_iff_ne.mpr ok.sized, Bool.not_true,
    Bool.false_or, decide_eq_true_eq]
  split
  · have empty : min bufferLen (e.size - offset) = 0 := by omega
    rw [empty, window_zero]
  · exact ok.readFat32From_eq (by omega)

theorem sliceReads :
    SliceReads (fun offset n => some (readFat32File m d e offset n)) (fat32FileBytes m d e) e.size := by
  apply SliceReads.of_windows ok.sectorsPerCluster_pos
  · have last := Nat.lt_div_mul_add (a := e.size - 1) (b := m.clusterSize) (Nat.pos_of_ne_zero ok.sized)
    rw [← Fat32Mount.clusterSize, Nat.succ_mul]
    omega
  · intro filled offset n
    rw [ok.readFat32File_eq filled]

end Fat32Readable

/-- Both readers return the slice of the file they are asked for. -/
theorem file_reads_are_slices :
    (∀ (m : Mount) (d : Device) (e : RootEntry), ExfatReadable m d e →
      SliceReads (readExfatRootFile m d e) (exfatFileBytes m d e) e.size) ∧
    ∀ (m : Fat32Mount) (d : Device) (e : RootEntry), Fat32Readable m d e →
      SliceReads (fun offset n => some (readFat32File m d e offset n)) (fat32FileBytes m d e) e.size :=
  ⟨fun _ _ _ ok => ok.sliceReads, fun _ _ _ ok => ok.sliceReads⟩

def sixteenFat32Clusters : Fat32Mount where
  blockSize := 512
  fat32 :=
    { present := true
      bytesPerSector := 512
      sectorsPerCluster := 1
      reservedSectors := 1
      numberOfFats := 1
      totalSectors := 18
      fatSizeSectors := 1
      rootDirCluster := 2 }

/-- A file of two sectors in clusters 5 and 6, and one of 100 bytes in cluster 5. -/
theorem file_reads_are_slices_sixteen :
    (∃ out, readExfatRootFile sixteenClusters blankDevice { endlessEntry with size := 700 } 500 1000 =
      some out ∧ out.length = 200) ∧
    ∃ out, some (readFat32File sixteenFat32Clusters blankDevice { endlessEntry with size := 100 } 30 50) =
      some out ∧ out.length = 50 := by
  have exfat : ExfatReadable sixteenClusters blankDevice { endlessEntry with size := 700 } := by
    refine ⟨by decide, by decide, rfl, fun i _ low => ⟨5 + i, ?_⟩⟩
    have within : i ≤ 1 := low
    obtain rfl | rfl : i = 0 ∨ i = 1 := by omega
    · decide
    · decide
  have fat32 : Fat32Readable sixteenFat32Clusters blankDevice { endlessEntry with size := 100 } := by
    refine ⟨by decide, by decide, rfl, fun i _ low => ⟨5, 5, ?_⟩⟩
    have first : i = 0 := Nat.le_zero.mp low
    subst first
    decide
  obtain ⟨out, ran, length, -⟩ :=
    (file_reads_are_slices.1 _ _ _ exfat).slice 500 1000 (by decide) (by decide)
  obtain ⟨out', ran', length', -⟩ :=
    (file_reads_are_slices.2 _ _ _ fat32).slice 30 50 (by decide) (by decide)
  exact ⟨⟨out, ran, length⟩, out', ran', length'⟩

end TangPingOS
