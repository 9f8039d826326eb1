import TangPingOS.Exfat.Volume

/-! # Sector transactions

Metadata edits are staged in up to four sector images and written back together,
each image read once from the device and verified after the commit.
-/

namespace TangPingOS

open Lib

def exfatTestTxMaxSectors : Nat := 4

/-- The four sector mutators. -/
inductive Patch where
  | bit (offset : Nat) (mask : UInt8) (set : Bool)
  | u32 (offset value : Nat)
  | bytes (offset : Nat) (src : Bytes)
  | deleteEntries (offset entryCount : Nat)

/-- The loop of `apply_exfat_delete_entries_patch`: clear the in-use bit of each entry,
    failing at one that is not in use. -/
def deleteEntriesFrom (offset : Nat) : Nat → Sector → Option Sector
  | 0, s => some s
  | left + 1, s =>
    if s.get offset &&& 0x80 = 0 then none
    else deleteEntriesFrom (offset + exfatEntrySize) left (s.set offset (s.get offset &&& 0x7f))

def Patch.apply : Patch → Sector → Option Sector
  | .bit offset mask set, s =>
    if 512 ≤ offset then none
    else some (s.set offset (if set then s.get offset ||| mask else s.get offset &&& ~~~ mask))
  | .u32 offset value, s =>
    if 512 < wrap64 (offset + 4) then none else some (s.write offset (le32 value))
  | .bytes offset src, s =>
    if 512 < wrap64 (offset + src.length) then none else some (s.write offset src)
  | .deleteEntries offset entryCount, s =>
    if 512 < wrap64 (offset + entryCount * exfatEntrySize) then none
    else deleteEntriesFrom offset entryCount s

def rawBytesEqual (a b : Sector) (len : Nat) : Bool :=
  (List.range len).all fun i => a.get i == b.get i

/-- `write_exfat_sector_checked_for_test`: write, read back, compare. -/
def writeExfatSectorChecked (m : Mount) (d : Device) (lba : Nat) (s : Sector) : Device × Bool :=
  if m.blockSize ≠ 512 then (d, false)
  else
    match blockWrite d lba s with
    | none => (d, false)
    | some d' =>
      match blockRead d' lba with
      | none => (d', false)
      | some verify => (d', rawBytesEqual s verify 512)

abbrev Transaction := List (Nat × Sector)

namespace Transaction

section

variable (tx : Transaction) (lba : Nat)

def has : Bool := tx.any fun e => e.1 == lba

def sector : Sector := (tx.lookup lba).getD Buf.zero

def store (s : Sector) : Transaction :=
  tx.map fun e => if e.1 = lba then (lba, s) else e

end

/-- `exfat_sector_transaction_get_for_test`: make sure the image of `lba` is staged. -/
def get (m : Mount) (d : Device) (tx : Transaction) (lba : Nat) : Option Transaction :=
  if m.blockSize ≠ 512 then none
  else if tx.has lba then some tx
  else if exfatTestTxMaxSectors ≤ tx.length then none
  else (blockRead d lba).map fun s => tx ++ [(lba, s)]

/-- `exfat_sector_transaction_mutate_for_test`. -/
def mutate (m : Mount) (d : Device) (tx : Transaction) (lba : Nat) (p : Patch) : Option Transaction :=
  match tx.get m d lba with
  | none => none
  | some tx' => (p.apply (tx'.sector lba)).map fun s => tx'.store lba s

/-- The write loop of `exfat_sector_transaction_commit_for_test`. -/
def writeBack (m : Mount) : Transaction → Device → Device × Bool
  | [], d => (d, true)
  | (lba, s) :: rest, d =>
    match writeExfatSectorChecked m d lba s with
    | (d', false) => (d', false)
    | (d', true) => writeBack m rest d'

/-- `exfat_sector_transaction_verify_for_test`. -/
def verify (m : Mount) (d : Device) (tx : Transaction) : Bool :=
  m.blockSize == 512 && tx.all fun e =>
    match blockRead d e.1 with
    | none => false
    | some s => rawBytesEqual e.2 s 512

def commit (m : Mount) (d : Device) (tx : Transaction) : Device × Bool :=
  match writeBack m tx d with
  | (d', false) => (d', false)
  | (d', true) => (d', tx.verify m d')

end Transaction

end TangPingOS
