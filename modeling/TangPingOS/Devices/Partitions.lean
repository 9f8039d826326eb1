import TangPingOS.Devices.BlockLayer

/-! # Partition I/O is confined

A partition that a scan of the partition table registers lies inside its parent, and its
transfers reach the parent only inside the partition.
-/

namespace TangPingOS.BlockLayer

open Lib

theorem blockRangeValid_iff : blockRangeValid blockCount lba count ↔ 0 < count ∧ lba + count ≤ blockCount := by
  unfold blockRangeValid
  split
  · simp only [Bool.false_eq_true, false_iff]
    omega
  · simp only [Bool.not_eq_true', decide_eq_false_iff_not]
    omega

section Table

variable {σ : Type}

/-- The driver's transfers inside the device concern the blocks they are asked for; `view` is what the
    medium holds. -/
structure Medium (device : BlockDevice σ) (view : σ → Nat → Sector) : Prop where
  reads : ∀ lba count s blocks s', lba + count ≤ device.blockCount →
    device.read lba count s = (some blocks, s') → blocks = (List.range count).map fun i => view s (lba + i)
  writes : ∀ write, device.write = some write → ∀ lba count data s n, lba + count ≤ device.blockCount →
    n < lba ∨ lba + count ≤ n → view (write lba count data s).2 n = view s n

variable {devices later : List (BlockDevice σ)} {device : BlockDevice σ} {index lba count : Nat} {s : σ}

theorem blockRead_none (outside : ¬ (0 < count ∧ lba + count ≤ device.blockCount))
    (known : devices[index]? = some device) :
    blockRead devices index lba count buffer s = (none, s) := by
  have refused := Bool.eq_false_iff.mpr fun valid => outside (blockRangeValid_iff.mp valid)
  cases buffer <;> simp [blockRead, known, refused]

theorem blockRead_inside (inside : 0 < count ∧ lba + count ≤ device.blockCount)
    (known : devices[index]? = some device) :
    blockRead devices index lba count true s = device.read lba count s := by
  simp [blockRead, known, blockRangeValid_iff.mpr inside]

theorem blockRead_null : blockRead devices index lba count false s = (none, s) := by
  unfold blockRead
  cases devices[index]? <;> rfl

theorem Medium.blockRead_blocks (medium : Medium device view) (known : devices[index]? = some device)
    (done : (blockRead devices index lba count buffer s).1 = some blocks) :
    blocks = (List.range count).map fun i => view s (lba + i) := by
  cases buffer with
  | false =>
    rw [blockRead_null] at done
    cases done
  | true =>
    by_cases inside : 0 < count ∧ lba + count ≤ device.blockCount
    · rw [blockRead_inside inside known] at done
      exact medium.reads lba count s blocks _ inside.2 (Prod.ext done rfl)
    · rw [blockRead_none inside known] at done
      cases done

/-- A write either does nothing or is the driver's, inside the device. -/
theorem blockWrite_cases (known : devices[index]? = some device) (buffer : Option (Nat → Sector)) :
    blockWrite devices index lba count buffer s = (false, s) ∨
      ∃ write data, device.write = some write ∧ buffer = some data ∧ device.writable ∧
        (0 < count ∧ lba + count ≤ device.blockCount) ∧
        blockWrite devices index lba count buffer s = write lba count data s := by
  unfold blockWrite
  rw [known]
  cases buffer with
  | none => exact .inl rfl
  | some data =>
    cases driver : device.write with
    | none =>
      exact .inl (by simp only [driver])
    | some write =>
      simp only [driver]
      split
      · exact .inl rfl
      · rename_i accepted
        simp only [Bool.or_eq_true, Bool.not_eq_true', not_or, Bool.not_eq_false] at accepted
        exact .inr ⟨write, data, rfl, rfl, accepted.1, blockRangeValid_iff.mp accepted.2, rfl⟩

theorem Medium.blockWrite_outside (medium : Medium device view) (known : devices[index]? = some device)
    (outside : n < lba ∨ lba + count ≤ n) :
    view (blockWrite devices index lba count buffer s).2 n = view s n := by
  obtain unchanged | ⟨write, data, driver, -, -, inside, ran⟩ := blockWrite_cases known buffer
  · rw [unchanged]
  · rw [ran]
    exact medium.writes write driver lba count data s n inside.2 outside

theorem blockWrite_readOnly (known : devices[index]? = some device) (readOnly : device.writable = false) : blockWrite devices index lba count buffer s = (false, s) := by
  obtain unchanged | ⟨write, data, -, -, writable, -⟩ := blockWrite_cases known buffer
  · exact unchanged
  · rw [readOnly] at writable
    cases writable

section

variable (grown : devices <+: later) (known : devices[index]? = some device)

include grown known

theorem known_grown : later[index]? = some device := by
  obtain ⟨inside, rfl⟩ := List.getElem?_eq_some_iff.mp known
  exact List.prefix_iff_getElem?.mp grown index inside

theorem blockRead_grown : blockRead later index lba count buffer s = blockRead devices index lba count buffer s := by
  unfold blockRead
  rw [known, known_grown grown known]

theorem blockWrite_grown :
    blockWrite later index lba count buffer s = blockWrite devices index lba count buffer s := by
  unfold blockWrite
  rw [known, known_grown grown known]

end

/-- What `block_get_info` says of a device. -/
def infoOf (device : BlockDevice σ) : BlockDeviceInfo where
  name := copyCstrLimited blockDeviceNameMax device.name
  blockSize := device.blockSize
  blockCount := device.blockCount
  writable := device.writable

/-- A device made for an entry of the partition table. It lies inside its parent. -/
structure PartitionOf (devices : List (BlockDevice σ)) (parentIndex : Nat) (parent : BlockDevice σ)
    (entry : MbrEntry) (part : BlockDevice σ) : Prop where
  known : devices[parentIndex]? = some parent
  some_ : 0 < entry.sectorCount
  inside : entry.startLba + entry.sectorCount ≤ parent.blockCount
  built : ∃ base number, base <+: devices ∧ base[parentIndex]? = some parent ∧
    part = partitionDevice base parentIndex (infoOf parent) number entry

theorem PartitionOf.grown {parentIndex : Nat} {parent part : BlockDevice σ} {entry : MbrEntry}
    (made : PartitionOf devices parentIndex parent entry part) (grown : devices <+: later) :
    PartitionOf later parentIndex parent entry part where
  known := known_grown grown made.known
  some_ := made.some_
  inside := made.inside
  built := by
    obtain ⟨base, number, before, known, isPart⟩ := made.built
    exact ⟨base, number, before.trans grown, known, isPart⟩

section Register

variable {parentIndex : Nat} {parent : BlockDevice σ}

/-- One entry of the table adds at most one device, and that is a partition. -/
theorem registerMbrPartition_cases (known : reg.devices[parentIndex]? = some parent)
    (number : Nat) (entry : MbrEntry) :
    (registerMbrPartition parentIndex (infoOf parent) number entry reg).devices = reg.devices ∨
      ∃ part, (registerMbrPartition parentIndex (infoOf parent) number entry reg).devices
          = reg.devices ++ [part] ∧
        PartitionOf reg.devices parentIndex parent entry part := by
  unfold registerMbrPartition
  split
  · exact .inl rfl
  · split
    · exact .inl rfl
    · rename_i fits
      unfold blockRegister
      split
      · exact .inl rfl
      · rename_i devices registered
        split at registered
        · cases registered
        · cases registered
          refine .inr ⟨_, rfl, known, by omega, ?_, reg.devices, number, List.prefix_rfl, known, rfl⟩
          simp only [infoOf] at fits
          omega

/-- Every device that the loop adds is a partition for one of the entries. -/
theorem registerMbrPartitions_spec (known : reg.devices[parentIndex]? = some parent) :
    reg.devices <+: (registerMbrPartitions parentIndex (infoOf parent) sector left i reg).devices ∧
      ∀ p part, reg.devices.length ≤ p →
        (registerMbrPartitions parentIndex (infoOf parent) sector left i reg).devices[p]? = some part →
        ∃ j, i ≤ j ∧ j < i + left ∧
          PartitionOf (registerMbrPartitions parentIndex (infoOf parent) sector left i reg).devices
            parentIndex parent (mbrEntry sector j) part := by
  induction left generalizing i reg with
  | zero =>
    refine ⟨List.prefix_rfl, fun p part new found => ?_⟩
    obtain ⟨inside, -⟩ := List.getElem?_eq_some_iff.mp found
    exact absurd inside (Nat.not_lt.mpr new)
  | succ left ih =>
    unfold registerMbrPartitions
    -- the table after this entry; the rest of the loop works on it
    generalize step : registerMbrPartition parentIndex (infoOf parent) (i + 1) (mbrEntry sector i) reg = next
    have cases := registerMbrPartition_cases known (i + 1) (mbrEntry sector i)
    rw [step] at cases
    obtain same | ⟨part, added, made⟩ := cases
    · obtain ⟨grown, spec⟩ := ih (i := i + 1) (same ▸ known)
      rw [same] at grown spec
      refine ⟨grown, fun p part new found => ?_⟩
      obtain ⟨j, low, high, made⟩ := spec p part new found
      exact ⟨j, by omega, by omega, made⟩
    · have before : reg.devices <+: next.devices := ⟨[part], added.symm⟩
      obtain ⟨grown, spec⟩ := ih (i := i + 1) (known_grown before known)
      refine ⟨before.trans grown, fun p other new found => ?_⟩
      obtain late | here := Nat.lt_or_ge reg.devices.length p
      · obtain ⟨j, low, high, made⟩ := spec p other (by rw [added, List.length_append]; exact late) found
        exact ⟨j, by omega, by omega, made⟩
      · obtain rfl : p = reg.devices.length := by omega
        have atEnd : next.devices[reg.devices.length]? = some part := by simp [added]
        cases found.symm.trans (known_grown grown atEnd)
        exact ⟨i, by omega, by omega, made.grown (before.trans grown)⟩

end Register

theorem blockGetInfo_eq (got : blockGetInfo devices parentIndex = some info) :
    ∃ parent, devices[parentIndex]? = some parent ∧ info = infoOf parent := by
  obtain ⟨parent, known, rfl⟩ := Option.map_eq_some_iff.mp got
  exact ⟨parent, known, rfl⟩

/-- Every device that a scan adds is a partition for one of the four entries of the sector it has read. -/
theorem scanMbr_spec
    (new : reg.devices.length ≤ p) (found : (scanMbr parentIndex reg s).1.devices[p]? = some part) :
    ∃ parent sector rest i, reg.devices[parentIndex]? = some parent ∧
      (blockRead reg.devices parentIndex 0 1 true s).1 = some (sector :: rest) ∧
      i < mbrPrimaryPartitions ∧
      PartitionOf (scanMbr parentIndex reg s).1.devices parentIndex parent (mbrEntry sector i) part := by
  have absent : reg.devices[p]? ≠ some part := by
    rw [List.getElem?_eq_none new]
    nofun
  unfold scanMbr at found ⊢
  split at found
  · exact absurd found absent
  · rename_i info got
    obtain ⟨parent, known, rfl⟩ := blockGetInfo_eq got
    split at found
    · exact absurd found absent
    · rename_i blocks512
      rw [if_neg blocks512]
      split at found
      · rename_i sector rest s' read
        simp only [read]
        split at found
        · exact absurd found absent
        · rename_i signed
          rw [if_neg signed]
          obtain ⟨j, -, high, made⟩ := (registerMbrPartitions_spec known).2 p part new found
          exact ⟨parent, sector, rest, j, known, rfl, by simpa using high, made⟩
      · exact absurd found absent

/-- What transfers through the device at index `part` do to its parent's medium. -/
structure Confined (devices : List (BlockDevice σ)) (part parentIndex startLba sectorCount : Nat)
    (view : σ → Nat → Sector) : Prop where
  /-- A read succeeds inside the partition, where the parent's does. -/
  read_iff : ∀ lba count buffer s, (blockRead devices part lba count buffer s).1.isSome ↔
    lba + count ≤ sectorCount ∧ 0 < count ∧
      (blockRead devices parentIndex (startLba + lba) count buffer s).1.isSome
  /-- It returns the parent's blocks. -/
  read_blocks : ∀ lba count buffer s blocks, (blockRead devices part lba count buffer s).1 = some blocks →
    blocks = (List.range count).map fun i => view s (startLba + lba + i)
  /-- A write changes no block outside the partition. -/
  write_outside : ∀ lba count buffer s n, n < startLba ∨ startLba + sectorCount ≤ n →
    view (blockWrite devices part lba count buffer s).2 n = view s n
  /-- Nothing is written if the parent is not writable. -/
  write_readOnly : ∀ parent, devices[parentIndex]? = some parent → parent.writable = false →
    ∀ lba count buffer s, blockWrite devices part lba count buffer s = (false, s)

namespace PartitionOf

variable {parentIndex p : Nat} {parent part : BlockDevice σ} {entry : MbrEntry}
  (made : PartitionOf devices parentIndex parent entry part)

include made

theorem blockCount : part.blockCount = entry.sectorCount := by
  obtain ⟨base, number, -, -, rfl⟩ := made.built
  rfl

theorem writable : part.writable = parent.writable := by
  obtain ⟨base, number, -, -, rfl⟩ := made.built
  rfl

/-- The MBR's fields have 32 bits, so the sum in `partition_read` does not wrap. -/
theorem wrap_start (small : entry.startLba < 2 ^ 32) (smallCount : entry.sectorCount < 2 ^ 32)
    (inside : lba + count ≤ part.blockCount) : wrap64 (entry.startLba + lba) = entry.startLba + lba := by
  rw [made.blockCount] at inside
  exact Nat.mod_eq_of_lt (by omega)

theorem read_eq (start : wrap64 (entry.startLba + lba) = entry.startLba + lba) :
    part.read lba count s = blockRead devices parentIndex (entry.startLba + lba) count true s := by
  obtain ⟨base, number, before, known, rfl⟩ := made.built
  show partitionRead base parentIndex entry.startLba lba count s = _
  rw [partitionRead, start, blockRead_grown before known]

theorem write_eq (driver : part.write = some write) (start : wrap64 (entry.startLba + lba) = entry.startLba + lba) :
    write lba count data s
      = blockWrite devices parentIndex (entry.startLba + lba) count (some data) s := by
  obtain ⟨base, number, before, known, rfl⟩ := made.built
  simp only [partitionDevice] at driver
  split at driver
  · cases driver
    rw [partitionWrite, start, blockWrite_grown before known]
  · cases driver

theorem confined (small : entry.startLba < 2 ^ 32) (smallCount : entry.sectorCount < 2 ^ 32)
    (known : devices[p]? = some part) (medium : Medium parent view) :
    Confined devices p parentIndex entry.startLba entry.sectorCount view := by
  have through (lba count : Nat) (s : σ) (inside : 0 < count ∧ lba + count ≤ part.blockCount) :
      blockRead devices p lba count true s
        = blockRead devices parentIndex (entry.startLba + lba) count true s := by
    rw [blockRead_inside inside known]
    exact made.read_eq (made.wrap_start small smallCount inside.2)
  refine ⟨?_, ?_, ?_, ?_⟩
  · intro lba count buffer s
    cases buffer with
    | false => simp [blockRead_null]
    | true =>
      by_cases inside : 0 < count ∧ lba + count ≤ part.blockCount
      · rw [through lba count s inside]
        rw [made.blockCount] at inside
        simp [inside]
      · rw [blockRead_none inside known]
        rw [made.blockCount] at inside
        simp only [Option.isSome_none, Bool.false_eq_true, false_iff]
        rintro ⟨fits, some_, -⟩
        exact inside ⟨some_, fits⟩
  · intro lba count buffer s blocks done
    cases buffer with
    | false =>
      rw [blockRead_null] at done
      cases done
    | true =>
      by_cases inside : 0 < count ∧ lba + count ≤ part.blockCount
      · rw [through lba count s inside] at done
        exact medium.blockRead_blocks made.known done
      · rw [blockRead_none inside known] at done
        cases done
  · intro lba count buffer s n outside
    obtain unchanged | ⟨write, data, driver, rfl, -, inside, ran⟩ := blockWrite_cases known buffer
    · rw [unchanged]
    · rw [ran, made.write_eq driver (made.wrap_start small smallCount inside.2)]
      rw [made.blockCount] at inside
      exact medium.blockWrite_outside made.known (by omega)
  · intro other same readOnly lba count buffer s
    cases same.symm.trans made.known
    exact blockWrite_readOnly known (made.writable.trans readOnly)

end PartitionOf

/-- Every partition that a scan registers is confined to its sectors, now and after more devices have
    been registered. -/
theorem partition_io_confined {parentIndex p : Nat} {reg : Registry σ} {part : BlockDevice σ}
    (new : reg.devices.length ≤ p) (found : (scanMbr parentIndex reg s).1.devices[p]? = some part) :
    ∃ parent sector rest i, reg.devices[parentIndex]? = some parent ∧
      (blockRead reg.devices parentIndex 0 1 true s).1 = some (sector :: rest) ∧
      i < mbrPrimaryPartitions ∧ part.blockCount = (mbrEntry sector i).sectorCount ∧
      ∀ later, (scanMbr parentIndex reg s).1.devices <+: later → ∀ view, Medium parent view →
        Confined later p parentIndex (mbrEntry sector i).startLba (mbrEntry sector i).sectorCount view := by
  obtain ⟨parent, sector, rest, i, known, read, small, made⟩ := scanMbr_spec new found
  refine ⟨parent, sector, rest, i, known, read, small, made.blockCount, fun later grown view medium => ?_⟩
  exact (made.grown grown).confined sector.readLe32_lt sector.readLe32_lt (known_grown grown found)
    medium

end Table

/-! ## A partition of the ram disk -/

theorem ramdisk_medium : Medium ramdiskDevice fun s n => s n where
  reads lba count s blocks s' _ done := by
    simp only [ramdiskDevice, ramdiskRead] at done
    split at done
    · cases done
    · cases done
      rfl
  writes write driver lba count data s n _ outside := by
    cases driver
    simp only [ramdiskWrite]
    split
    · rfl
    · simp only
      rw [if_neg (by omega)]

/-- A partition table whose first entry is of type 7 and covers sectors 8 to 23. -/
def mbrSector : Sector :=
  (((Buf.zero.write 450 [7]).write 454 (le32 8)).write 458 (le32 16)).write 510 [0x55, 0xaa]

def mbrDisk : Nat → Sector := Function.update (fun _ => Buf.zero) 0 mbrSector

theorem partition_io_confined_ramdisk :
    ∃ part startLba, (scanMbr 0 ⟨[ramdiskDevice], 0⟩ mbrDisk).1.devices[1]? = some part ∧
      Confined (scanMbr 0 ⟨[ramdiskDevice], 0⟩ mbrDisk).1.devices 1 0 startLba part.blockCount
        fun s n => s n := by
  have two : 1 < (scanMbr 0 ⟨[ramdiskDevice], 0⟩ mbrDisk).1.devices.length := by decide +kernel
  have found := List.getElem?_eq_getElem two
  obtain ⟨parent, sector, rest, i, known, -, -, size, confined⟩ := partition_io_confined (by decide) found
  cases known
  refine ⟨_, (mbrEntry sector i).startLba, found, ?_⟩
  rw [size]
  exact confined _ List.prefix_rfl _ ramdisk_medium

end TangPingOS.BlockLayer
