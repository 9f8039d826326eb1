import TangPingOS.Block
import TangPingOS.Lib.Words

/-! # The table of block devices, and partitions

`kernel/block.c` and `kernel/partition.c`. A device is what its driver's functions do to a
state that all drivers share: the media, and whatever else the hardware remembers. A
partition is a device whose driver passes transfers on to another device of the table.
Devices are only ever added, so that what a partition finds at its parent's index is what
was there when it was registered. Only transfers of 512-byte blocks are modelled, since
the drivers and the partition scan know no other size. Log lines are left out.
-/

namespace TangPingOS.BlockLayer

open Lib

def blockDeviceNameMax : Nat := 32
def blockMaxDevices : Nat := 16

/-- `struct block_device`. A driver has a read function, and a write function or none. A read yields
    the blocks it stored, none for the result -1; a write reads its buffer block by block, and the
    Boolean is false for the result -1. -/
structure BlockDevice (σ : Type) where
  name : Bytes
  blockSize : Nat
  blockCount : Nat
  writable : Bool
  read : Nat → Nat → σ → Option (List Sector) × σ
  write : Option (Nat → Nat → (Nat → Sector) → σ → Bool × σ)

/-- `struct block_device_info`. -/
structure BlockDeviceInfo where
  name : Bytes
  blockSize : Nat
  blockCount : Nat
  writable : Bool
  deriving DecidableEq, Repr

def copyCstrLimited (dstLen : Nat) (src : Bytes) : Bytes := src.take (dstLen - 1)

def blockRangeValid (blockCount lba count : Nat) : Bool :=
  if count = 0 ∨ blockCount ≤ lba then false else !decide (blockCount - lba < count)

section Table

variable {σ : Type}

/-- `block_register`: none for the result -1. -/
def blockRegister (device : BlockDevice σ) (devices : List (BlockDevice σ)) : Option (List (BlockDevice σ)) :=
  if device.blockSize = 0 ∨ device.blockCount = 0 ∨ blockMaxDevices ≤ devices.length then none
  else some (devices ++ [device])

section

variable (devices : List (BlockDevice σ))

def blockGetInfo (index : Nat) : Option BlockDeviceInfo :=
  devices[index]?.map fun device =>
    { name := copyCstrLimited blockDeviceNameMax device.name
      blockSize := device.blockSize
      blockCount := device.blockCount
      writable := device.writable }

/-- `block_read`; `buffer` says whether there is one. -/
def blockRead (index lba count : Nat) (buffer : Bool) (s : σ) : Option (List Sector) × σ :=
  match devices[index]? with
  | none => (none, s)
  | some device =>
    if !buffer then (none, s)
    else if !blockRangeValid device.blockCount lba count then (none, s)
    else device.read lba count s

/-- `block_write`; no buffer is a null pointer. -/
def blockWrite (index lba count : Nat) (buffer : Option (Nat → Sector)) (s : σ) : Bool × σ :=
  match devices[index]?, buffer with
  | some device, some data =>
    match device.write with
    | some write =>
      if !device.writable || !blockRangeValid device.blockCount lba count then (false, s)
      else write lba count data s
    | none => (false, s)
  | _, _ => (false, s)

def ramdiskBlockCount : Nat := 64

def ramdiskRead (lba count : Nat) (s : Nat → Sector) : Option (List Sector) × (Nat → Sector) :=
  if !blockRangeValid ramdiskBlockCount lba count then (none, s)
  else (some ((List.range count).map fun i => s (lba + i)), s)

def ramdiskWrite (lba count : Nat) (data : Nat → Sector) (s : Nat → Sector) : Bool × (Nat → Sector) :=
  if !blockRangeValid ramdiskBlockCount lba count then (false, s)
  else (true, fun n => if lba ≤ n ∧ n < lba + count then data (n - lba) else s n)

/-- `ramdisk_device`: `ramblk0`. -/
def ramdiskDevice : BlockDevice (Nat → Sector) where
  name := [0x72, 0x61, 0x6d, 0x62, 0x6c, 0x6b, 0x30]
  blockSize := 512
  blockCount := ramdiskBlockCount
  writable := true
  read := ramdiskRead
  write := some ramdiskWrite

def mbrSignatureOffset : Nat := 510
def mbrPartitionTableOffset : Nat := 446
def mbrPartitionEntrySize : Nat := 16
def mbrPrimaryPartitions : Nat := 4
def partitionMaxDevices : Nat := 16

def makePartitionName (parent : Bytes) (number : Nat) : Bytes :=
  let out := copyCstrLimited blockDeviceNameMax parent
  if blockDeviceNameMax ≤ out.length + 2 then out else out ++ [0x70, UInt8.ofNat (0x30 + number)]

def partitionRead (parentIndex startLba lba count : Nat) (s : σ) : Option (List Sector) × σ :=
  blockRead devices parentIndex (wrap64 (startLba + lba)) count true s

def partitionWrite (parentIndex startLba lba count : Nat) (data : Nat → Sector) (s : σ) : Bool × σ :=
  blockWrite devices parentIndex (wrap64 (startLba + lba)) count (some data) s

end

/-- The table of devices, and how many of them are partitions. -/
structure Registry (σ : Type) where
  devices : List (BlockDevice σ)
  partitionCount : Nat

/-- An entry of the partition table: the fields that are looked at. -/
structure MbrEntry where
  type : UInt8
  startLba : Nat
  sectorCount : Nat
  deriving DecidableEq, Repr

def mbrEntry (sector : Sector) (i : Nat) : MbrEntry :=
  let entry := mbrPartitionTableOffset + i * mbrPartitionEntrySize
  { type := sector.get (entry + 4)
    startLba := sector.readLe32 (entry + 8)
    sectorCount := sector.readLe32 (entry + 12) }

/-- The device that `register_mbr_partition` fills in. -/
def partitionDevice (devices : List (BlockDevice σ)) (parentIndex : Nat) (parent : BlockDeviceInfo)
    (number : Nat) (entry : MbrEntry) : BlockDevice σ where
  name := makePartitionName parent.name number
  blockSize := parent.blockSize
  blockCount := entry.sectorCount
  writable := parent.writable
  read := partitionRead devices parentIndex entry.startLba
  write := if parent.writable then some (partitionWrite devices parentIndex entry.startLba) else none

def registerMbrPartition (parentIndex : Nat) (parent : BlockDeviceInfo) (number : Nat)
    (entry : MbrEntry) (reg : Registry σ) : Registry σ :=
  if partitionMaxDevices ≤ reg.partitionCount ∨ entry.type = 0 ∨ entry.sectorCount = 0 then reg
  else if parent.blockCount ≤ entry.startLba ∨ parent.blockCount - entry.startLba < entry.sectorCount then
    reg
  else
    match blockRegister (partitionDevice reg.devices parentIndex parent number entry) reg.devices with
    | none => reg
    | some devices => { devices := devices, partitionCount := reg.partitionCount + 1 }

/-- The loop of `scan_mbr`, from entry `i` on. -/
def registerMbrPartitions (parentIndex : Nat) (parent : BlockDeviceInfo) (sector : Sector) :
    Nat → Nat → Registry σ → Registry σ
  | 0, _, reg => reg
  | left + 1, i, reg =>
    registerMbrPartitions parentIndex parent sector left (i + 1)
      (registerMbrPartition parentIndex parent (i + 1) (mbrEntry sector i) reg)

def scanMbr (parentIndex : Nat) (reg : Registry σ) (s : σ) : Registry σ × σ :=
  match blockGetInfo reg.devices parentIndex with
  | none => (reg, s)
  | some parent =>
    if parent.blockSize ≠ 512 then (reg, s)
    else
      match blockRead reg.devices parentIndex 0 1 true s with
      | (some (sector :: _), s) =>
        if sector.get mbrSignatureOffset ≠ 0x55 ∨ sector.get (mbrSignatureOffset + 1) ≠ 0xaa then (reg, s)
        else (registerMbrPartitions parentIndex parent sector mbrPrimaryPartitions 0 reg, s)
      | (_, s) => (reg, s)

end Table

end TangPingOS.BlockLayer
