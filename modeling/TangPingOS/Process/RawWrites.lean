import TangPingOS.Devices.Partitions
import TangPingOS.Process.Writes

/-! # Writing to a block device

`syscall_block_write` passes its sectors on one by one, each with a check of its own. Of a
range that begins inside the device and ends outside, the sectors inside are written
before the call fails.
-/

namespace TangPingOS

open Lib BlockLayer

def syscallBlockMaxCount : Nat := 8

section Calls

variable {σ : Type} (devices : List (BlockDevice σ)) (index lba buffer : Nat) (m : Machine)

/-- The loop of `syscall_block_write`, from sector `i` on. -/
def writeSectors : Nat → Nat → σ → Bool × σ
  | 0, _, s => (true, s)
  | left + 1, i, s =>
    match copyFromUser (wrap64 (buffer + i * 512)) 512 m with
    | none => (false, s)
    | some sector =>
      match BlockLayer.blockWrite devices index (wrap64 (lba + i)) 1 (some fun _ => Buf.zero.write 0 sector) s with
      | (false, s) => (false, s)
      | (true, s) => writeSectors left (i + 1) s

/-- `syscall_block_write`: none for -1. -/
def syscallBlockWrite (count : Nat) (s : σ) : Option Nat × σ :=
  if count = 0 ∨ syscallBlockMaxCount < count then (none, s)
  else if !usercopyValidateRange buffer (count * 512) false m then (none, s)
  else
    let (done, s) := writeSectors devices index lba buffer m count 0 s
    (if done then some count else none, s)

/-- Sector `i` of the caller's buffer. -/
def userSector (i : Nat) : Sector := Buf.zero.write 0 (userBytes (buffer + i * 512) 512 m)

def sectorRead (n : Nat) (s : σ) : Option (List Sector) := (BlockLayer.blockRead devices index n 1 true s).1

def SameSectors (s s' : σ) : Prop := ∀ index n, sectorRead devices index n s' = sectorRead devices index n s

/-- The writes of a device from `lba` on store the sector: it is read back, the others of the device stay, and
    storing what is there already shows nowhere. -/
structure Stores (blockCount : Nat) (write : Nat → Nat → (Nat → Sector) → σ → Bool × σ) : Prop where
  word : blockCount < 2 ^ 64
  stored : ∀ n < blockCount, lba ≤ n → ∀ data s, ∃ s', write n 1 data s = (true, s') ∧
    (∀ n', sectorRead devices index n' s' = if n' = n then some [data 0] else sectorRead devices index n' s) ∧
    (sectorRead devices index n s = some [data 0] → SameSectors devices s s')

end Calls

variable {σ : Type} {devices : List (BlockDevice σ)} {device : BlockDevice σ} {index lba buffer count left i : Nat}
  {m : Machine} {s : σ}

theorem copySector (readable : Readable buffer (count * 512) m) (real : 0 < buffer) (low : i < count) :
    copyFromUser (wrap64 (buffer + i * 512)) 512 m = some (userBytes (buffer + i * 512) 512 m) := by
  have within : i * 512 + 512 ≤ count * 512 := by omega
  rw [copyFromUser_part readable within (by omega), userBytes_part within]

theorem writeSectors_refused (known : devices[index]? = some device)
    (refuses : device.writable = false ∨ device.write = none) :
    writeSectors devices index lba buffer m (left + 1) i s = (false, s) := by
  have refused : ∀ n data, BlockLayer.blockWrite devices index n 1 data s = (false, s) := by
    intro n data
    obtain refused | ⟨write, -, driver, -, writable, -⟩ := blockWrite_cases known data
    · exact refused
    · simp [driver, writable] at refuses
  unfold writeSectors
  simp only [refused]
  split <;> rfl

/-- From a sector on, those inside the device are written, and the first one outside ends the loop. -/
theorem writeSectors_leaves (known : devices[index]? = some device)
    (stores : Stores devices index lba device.blockCount write) (writable : device.writable)
    (driver : device.write = some write) (readable : Readable buffer (count * 512) m) (real : 0 < buffer)
    (rest : i + left = count) (leaves : device.blockCount < lba + count)
    (word : lba + i < 2 ^ 64) (more : 0 < left ∨ lba + i ≤ device.blockCount) :
    ∃ s', writeSectors devices index lba buffer m left i s = (false, s') ∧
      (∀ n, sectorRead devices index n s' = if lba + i ≤ n ∧ n < device.blockCount
        then some [userSector buffer m (n - lba)] else sectorRead devices index n s) ∧
      ((∀ n < device.blockCount, lba + i ≤ n → sectorRead devices index n s = some [userSector buffer m (n - lba)]) →
        SameSectors devices s s') := by
  induction left generalizing i s with
  | zero => omega
  | succ left ih =>
    have same : wrap64 (lba + i) = lba + i := Nat.mod_eq_of_lt word
    unfold writeSectors
    simp only [copySector readable real (by omega : i < count), same]
    by_cases here : lba + i < device.blockCount
    · obtain ⟨s₁, ran, read, idle⟩ := stores.stored (lba + i) here (by omega) (fun _ => userSector buffer m i) s
      have written : BlockLayer.blockWrite devices index (lba + i) 1
          (some fun _ => Buf.zero.write 0 (userBytes (buffer + i * 512) 512 m)) s = (true, s₁) := by
        simp only [BlockLayer.blockWrite, known, driver, writable,
          blockRangeValid_iff.mpr ⟨Nat.one_pos, here⟩]
        exact ran
      simp only [written]
      have next : lba + (i + 1) < 2 ^ 64 := Nat.lt_of_le_of_lt here stores.word
      obtain ⟨s', ran', read', idle'⟩ := ih (s := s₁) (by omega) next (.inr here)
      refine ⟨s', ran', ?_, ?_⟩
      · intro n
        rw [read', read]
        by_cases first : n = lba + i
        · rw [if_neg (by omega), if_pos first, if_pos (by omega), first, Nat.add_sub_cancel_left]
        · rw [if_neg first]
          exact if_congr (by omega) rfl rfl
      · intro held
        have first := idle (by rw [held _ here (Nat.le_refl _), Nat.add_sub_cancel_left])
        have later := idle' fun n low above => by rw [first, held n low (by omega)]
        exact fun d n => (later d n).trans (first d n)
    · have refused : BlockLayer.blockWrite devices index (lba + i) 1
          (some fun _ => Buf.zero.write 0 (userBytes (buffer + i * 512) 512 m)) s = (false, s) := by
        obtain refused | ⟨-, -, -, -, -, ⟨-, inside⟩, -⟩ := blockWrite_cases known _
        · exact refused
        · omega
      simp only [refused]
      refine ⟨s, rfl, fun n => ?_, fun _ _ _ => rfl⟩
      rw [if_neg (by omega)]

/-- A raw write that leaves the device changes nothing just if nothing is written, or only what is there. -/
theorem raw_write_outside_iff (known : devices[index]? = some device)
    (stores : 0 < count → count ≤ syscallBlockMaxCount → device.writable = true → ∀ write, device.write = some write →
      Stores devices index lba device.blockCount write)
    (lba_word : lba < 2 ^ 64) (real : 0 < buffer)
    (readable : usercopyValidateRange buffer (count * 512) false m = true)
    (outside : ¬(0 < count ∧ lba + count ≤ device.blockCount)) :
    ((syscallBlockWrite devices index lba buffer m count s).1 = none ∧
      SameSectors devices s (syscallBlockWrite devices index lba buffer m count s).2) ↔
    count = 0 ∨ syscallBlockMaxCount < count ∨ device.writable = false ∨ device.write = none ∨
      ∀ n < device.blockCount, lba ≤ n → sectorRead devices index n s = some [userSector buffer m (n - lba)] := by
  unfold syscallBlockWrite
  by_cases refused : count = 0 ∨ syscallBlockMaxCount < count
  · rw [if_pos refused]
    exact iff_of_true ⟨rfl, fun _ _ => rfl⟩ (refused.imp_right .inl)
  · obtain ⟨some_, few⟩ := not_or.mp refused
    rw [if_neg refused, readable, if_neg (by decide)]
    cases driver : device.write with
    | none =>
      obtain ⟨left, rfl⟩ := Nat.exists_eq_succ_of_ne_zero some_
      rw [writeSectors_refused known (.inr driver)]
      exact iff_of_true ⟨rfl, fun _ _ => rfl⟩ (.inr (.inr (.inr (.inl rfl))))
    | some write =>
      cases writable : device.writable with
      | false =>
        obtain ⟨left, rfl⟩ := Nat.exists_eq_succ_of_ne_zero some_
        rw [writeSectors_refused known (.inl writable)]
        exact iff_of_true ⟨rfl, fun _ _ => rfl⟩ (.inr (.inr (.inl rfl)))
      | true =>
        have stores := stores (Nat.pos_of_ne_zero some_) (Nat.not_lt.mp few) writable write driver
        obtain ⟨s', ran, read, idle⟩ := writeSectors_leaves (i := 0) (s := s) known stores writable driver
          (usercopyValidateRange_readable readable) real (Nat.zero_add count) (by omega) lba_word (by omega)
        simp only [ran, some_, few, reduceCtorEq, false_or]
        constructor
        · rintro ⟨-, unchanged⟩ n low above
          rw [← unchanged, read, if_pos ⟨above, low⟩]
        · intro held
          exact ⟨rfl, idle fun n low above => held n low above⟩

theorem sectorRead_ramdisk (s : Nat → Sector) :
    sectorRead [ramdiskDevice] index n s = if index = 0 ∧ n < ramdiskBlockCount then some [s n] else none := by
  cases index with
  | zero =>
    have valid : blockRangeValid ramdiskBlockCount n 1 = decide (n < ramdiskBlockCount) :=
      Bool.eq_iff_iff.mpr (by rw [blockRangeValid_iff, decide_eq_true_eq]; omega)
    by_cases low : n < ramdiskBlockCount
    · simp [sectorRead, BlockLayer.blockRead, ramdiskDevice, ramdiskRead, valid, low]
    · simp [sectorRead, BlockLayer.blockRead, ramdiskDevice, valid, low]
  | succ index => simp [sectorRead, BlockLayer.blockRead]

theorem ramdisk_stores : Stores [ramdiskDevice] 0 lba ramdiskBlockCount ramdiskWrite where
  word := by decide
  stored n low _ data s := by
    have valid : blockRangeValid ramdiskBlockCount n 1 := blockRangeValid_iff.mpr ⟨Nat.one_pos, low⟩
    have written : ramdiskWrite n 1 data s = (true, Function.update s n (data 0)) := by
      have same : (fun x => if n ≤ x ∧ x < n + 1 then data (x - n) else s x) = Function.update s n (data 0) := by
        funext x
        by_cases here : x = n
        · simp [here]
        · rw [if_neg (by omega), Function.update_of_ne here]
      rw [ramdiskWrite, valid, ← same]
      rfl
    refine ⟨_, written, fun x => ?_, fun held => ?_⟩
    · rw [sectorRead_ramdisk, sectorRead_ramdisk]
      by_cases here : x = n
      · simp [here, show n < ramdiskBlockCount from low]
      · simp [here]
    · rw [sectorRead_ramdisk, if_pos ⟨rfl, low⟩] at held
      have same : s n = data 0 := by simpa using held
      rw [← same, Function.update_eq_self]
      exact fun _ _ => rfl

/-- The last sector of the disk holds the first of the caller's. -/
def heldDisk : Nat → Sector := Function.update (fun _ => Buf.zero) 63 (userSector 0x10000 writer.machine 0)

/-- The second of two sectors is behind the end of the ram disk, the first one is there already. -/
theorem raw_write_outside_behind :
    SameSectors [ramdiskDevice] heldDisk
      (syscallBlockWrite [ramdiskDevice] 0 63 0x10000 writer.machine 2 heldDisk).2 := by
  have stores (_ : 0 < 2) (_ : 2 ≤ syscallBlockMaxCount) (_ : ramdiskDevice.writable) write
      (driver : ramdiskDevice.write = some write) : Stores [ramdiskDevice] 0 63 ramdiskBlockCount write := by
    cases driver
    exact ramdisk_stores
  refine ((raw_write_outside_iff rfl stores (by decide) (by decide) (by decide +kernel) (by decide)).mpr ?_).2
  refine .inr (.inr (.inr (.inr fun n low above => ?_)))
  obtain rfl : n = 63 := Nat.le_antisymm (Nat.le_of_lt_succ low) above
  rw [sectorRead_ramdisk, if_pos ⟨rfl, low⟩, heldDisk, Function.update_self]

/-- The second of two sectors is behind the end of the ram disk: the first one has been overwritten. -/
theorem raw_write_torn :
    (syscallBlockWrite [ramdiskDevice] 0 63 0x10000 writer.machine 2 fun _ => Buf.zero).1 = none ∧
      ¬SameSectors [ramdiskDevice] (fun _ => Buf.zero)
        (syscallBlockWrite [ramdiskDevice] 0 63 0x10000 writer.machine 2 fun _ => Buf.zero).2 := by
  refine ⟨by decide +kernel, fun same => ?_⟩
  have first := congrArg (fun read => read.map fun blocks => blocks.map fun block => block.get 0) (same 0 63)
  revert first
  decide +kernel

end TangPingOS
