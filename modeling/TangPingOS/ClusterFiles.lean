import TangPingOS.Block
import TangPingOS.Lib.Windows

/-! # Files in clusters

What the two file systems have in common: a file is a row of clusters, a cluster a row of
sectors. `sectorOf i j` is the sector of the device that holds sector `j` of cluster `i`.
-/

namespace TangPingOS

open Lib

section Layout

variable (d : Device) (spc : Nat) (sectorOf : Nat → Nat → Nat)

def clusterBytes (i : Nat) : Bytes := (List.range spc).flatMap fun j => (d.data (sectorOf i j)).slice 0 512

/-- The first `count` clusters of a file, put together. -/
def clustersBytes (count : Nat) : Bytes := (List.range count).flatMap (clusterBytes d spc sectorOf)

def sectorAt (pos : Nat) : Nat := sectorOf (pos / (spc * 512)) (pos % (spc * 512) / 512)

def byteAt (pos : Nat) : UInt8 := (d.data (sectorAt spc sectorOf pos)).get (pos % 512)

theorem sectorAt_congr (same : pos / 512 = pos' / 512) :
    sectorAt spc sectorOf pos = sectorAt spc sectorOf pos' := by
  have index (p : Nat) : p / (spc * 512) = p / 512 / spc := by
    rw [Nat.mul_comm, Nat.div_div_eq_div_mul]
  have column (p : Nat) : p % (spc * 512) / 512 = p / 512 % spc := by
    rw [Nat.mul_comm, Nat.mod_mul_right_div_self]
  rw [sectorAt, sectorAt, index, index, column, column, same]

theorem slice_eq_window (inside : pos % 512 + len ≤ 512) :
    (d.data (sectorAt spc sectorOf pos)).slice (pos % 512) len = window (byteAt d spc sectorOf) pos len := by
  apply List.map_congr_left
  intro i low
  have small : i < len := List.mem_range.mp low
  have sector : sectorAt spc sectorOf (pos + i) = sectorAt spc sectorOf pos :=
    sectorAt_congr spc sectorOf (by omega)
  have offset : (pos + i) % 512 = pos % 512 + i := by omega
  rw [byteAt, sector, offset]

theorem clusterBytes_eq (positive : 0 < spc) :
    clusterBytes d spc sectorOf i = window (byteAt d spc sectorOf) (i * (spc * 512)) (spc * 512) := by
  apply flatMap_window
  intro j inside
  have column : j * 512 < spc * 512 := Nat.mul_lt_mul_of_pos_right inside (by decide)
  have place : i * (spc * 512) + j * 512 = j * 512 + spc * 512 * i := by
    rw [Nat.mul_comm i, Nat.add_comm]
  have aligned : (i * (spc * 512) + j * 512) % 512 = 0 := by
    rw [← Nat.mul_assoc, ← Nat.add_mul, Nat.mul_mod_left]
  have sector : sectorAt spc sectorOf (i * (spc * 512) + j * 512) = sectorOf i j := by
    rw [sectorAt, place, Nat.add_mul_div_left _ _ (by omega), Nat.add_mul_mod_self_left,
      Nat.div_eq_of_lt column, Nat.mod_eq_of_lt column, Nat.zero_add, Nat.mul_div_cancel _ (by decide)]
  rw [← slice_eq_window d spc sectorOf (by omega), aligned, sector]

theorem clustersBytes_eq (positive : 0 < spc) :
    clustersBytes d spc sectorOf count = window (byteAt d spc sectorOf) 0 (count * (spc * 512)) := by
  apply flatMap_window
  intro i _
  rw [Nat.zero_add]
  exact clusterBytes_eq d spc sectorOf positive

end Layout

/-- A reader returns the slice of a file's clusters that it is asked for, as far as the file goes,
    and in pieces the same as at once. -/
structure SliceReads (read : Nat → Nat → Option Bytes) (contents : Bytes) (size : Nat) : Prop where
  slice : ∀ offset n, offset < size → 0 < n → ∃ out, read offset n = some out ∧
    out.length = min n (size - offset) ∧ out = (contents.drop offset).take (min n (size - offset))
  pieces : ∀ offset ns, offset < size → readPieces read offset ns = read offset ns.sum

theorem SliceReads.of_windows {read : Nat → Nat → Option Bytes} {d spc}
    {sectorOf size count} (positive : 0 < spc) (covers : size ≤ count * (spc * 512))
    (reads : 0 < size → ∀ offset n,
      read offset n = some (window (byteAt d spc sectorOf) offset (min n (size - offset)))) :
    SliceReads read (clustersBytes d spc sectorOf count) size := by
  constructor
  · intro offset n inside _
    refine ⟨_, reads (by omega) offset n, length_window _, ?_⟩
    rw [clustersBytes_eq d spc sectorOf positive, take_drop_window _ (by omega), Nat.zero_add]
  · intro offset ns inside
    exact readPieces_eq _ (reads (by omega)) offset ns

end TangPingOS
