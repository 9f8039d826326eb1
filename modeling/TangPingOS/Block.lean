import TangPingOS.Lib.Bytes

/-! # Block devices

The block layer of `kernel/block.c`, seen by one mounted file system: a device
of 512-byte sectors addressed by LBA. A transfer is refused outside the device,
on a read-only device for writes, and at the sectors the medium itself refuses;
all other transfers succeed. A device on which "all block I/O succeeds" is one
that refuses no sector it is asked for.
-/

namespace TangPingOS

open Lib

abbrev Sector := Buf 512

structure Device where
  blockCount : Nat
  bounded : blockCount < 2 ^ 64
  writable : Bool
  /-- Sectors on which the driver reports an error. -/
  fault : Nat → Bool
  data : Nat → Sector

namespace Device

def put (d : Device) (lba : Nat) (s : Sector) : Device :=
  { d with data := Function.update d.data lba s }

/-- The range check of `block_range_valid` for one block, and the driver's answer. -/
def accepts (d : Device) (lba : Nat) : Bool := decide (lba < d.blockCount) && !d.fault lba

@[simp] theorem put_blockCount (d : Device) (lba : Nat) (s : Sector) :
    (d.put lba s).blockCount = d.blockCount := rfl

@[simp] theorem put_writable (d : Device) (lba : Nat) (s : Sector) :
    (d.put lba s).writable = d.writable := rfl

@[simp] theorem put_accepts (d : Device) (lba : Nat) (s : Sector) (other : Nat) :
    (d.put lba s).accepts other = d.accepts other := rfl

@[simp] theorem put_data_self (d : Device) (lba : Nat) (s : Sector) : (d.put lba s).data lba = s := by
  simp [put]

theorem put_data_other {d : Device} (apart : other ≠ lba) : (d.put lba s).data other = d.data other := by
  simp [put, apart]

end Device

def blockRead (d : Device) (lba : Nat) : Option Sector :=
  if d.accepts lba then some (d.data lba) else none

def blockWrite (d : Device) (lba : Nat) (s : Sector) : Option Device :=
  if d.writable && d.accepts lba then some (d.put lba s) else none

theorem blockRead_eq_some : blockRead d lba = some s ↔ d.accepts lba ∧ d.data lba = s := by
  simp [blockRead]

end TangPingOS
