import TangPingOS.Memory.Machine

/-! # Page tables

The `vmm_*` functions of `kernel/memory.c`: four levels of 512-entry tables, walked
and extended by `vmm_map_page_in`, read by the two translations and given back by
`vmm_destroy_user_address_space`. A table is named by its page. TLB flushes have no
effect on the state and are left out.
-/

namespace TangPingOS

open Lib

def ptePresent : Nat := 2 ^ 0
def pteWritable : Nat := 2 ^ 1
def pteUser : Nat := 2 ^ 2
def ptePwt : Nat := 2 ^ 3
def ptePcd : Nat := 2 ^ 4
def pteHuge : Nat := 2 ^ 7
def pteNoExec : Nat := 2 ^ 63

/-- `PTE_ADDR_MASK`: bits 12 to 51. -/
def pteAddrMask : Nat := (2 ^ 40 - 1) * 2 ^ 12

def vmmFlagWritable : Nat := 2 ^ 1
def vmmFlagUser : Nat := 2 ^ 2
def vmmFlagWriteCombining : Nat := 2 ^ 3
def vmmFlagUncached : Nat := 2 ^ 4
def vmmFlagNoExec : Nat := 2 ^ 63

def userVirtMax : Nat := 0x0000800000000000

def pml4Index (virt : Nat) : Nat := virt / 2 ^ 39 % 512
def pdptIndex (virt : Nat) : Nat := virt / 2 ^ 30 % 512
def pdIndex (virt : Nat) : Nat := virt / 2 ^ 21 % 512
def ptIndex (virt : Nat) : Nat := virt / 2 ^ 12 % 512

def entryPage (entry : Nat) : Nat := (entry &&& pteAddrMask) / pageSize

/-- `vmm_next_level`. Every caller asks for missing tables to be created. -/
def vmmNextLevel (table index flags : Nat) (k : Machine) : Except Panic (Nat × Machine) :=
  if !anyBit (k.mem table index) ptePresent then do
    let (phys, k) ← pmmAllocPage k
    let k := k.setWord table index (phys ||| ptePresent ||| pteWritable ||| (flags &&& pteUser))
    return (entryPage (k.mem table index), k)
  else
    let k := if anyBit flags pteUser then k.setWord table index (k.mem table index ||| pteUser) else k
    .ok (entryPage (k.mem table index), k)

/-- The bits of a leaf entry, after the two caching flags have been translated. -/
def pteFlags (flags : Nat) : Nat :=
  let flags := if anyBit flags vmmFlagWriteCombining then
      ((flags &&& (u64Max - vmmFlagWriteCombining)) &&& (u64Max - ptePcd)) ||| ptePwt
    else flags
  if anyBit flags vmmFlagUncached then
    ((flags &&& (u64Max - vmmFlagUncached)) ||| ptePcd) &&& (u64Max - ptePwt)
  else flags

/-- `vmm_map_page_in`. The Boolean is false for the result -1. -/
def vmmMapPageIn (cr3Phys virtAddr physAddr flags : Nat) (k : Machine) : Except Panic (Bool × Machine) :=
  if virtAddr % pageSize ≠ 0 ∨ physAddr % pageSize ≠ 0 then .ok (false, k)
  else do
    let pml4 := entryPage cr3Phys
    let (pdpt, k) ← vmmNextLevel pml4 (pml4Index virtAddr) flags k
    let (pd, k) ← vmmNextLevel pdpt (pdptIndex virtAddr) flags k
    let (pt, k) ← vmmNextLevel pd (pdIndex virtAddr) flags k
    return (true, k.setWord pt (ptIndex virtAddr)
      ((physAddr &&& pteAddrMask) ||| pteFlags flags ||| ptePresent))

def vmmMapPage (virtAddr physAddr flags : Nat) (k : Machine) : Except Panic (Bool × Machine) :=
  vmmMapPageIn k.cr3 virtAddr physAddr flags k

/-- The loop of `vmm_translate_user_addr`: the leaf entry behind the given indices. -/
def translateLevels (write : Bool) (k : Machine) : Nat → List Nat → Option Nat
  | _, [] => none
  | table, index :: rest =>
    let entry := k.mem table index
    if !anyBit entry ptePresent || !anyBit entry pteUser then none
    else if write && !anyBit entry pteWritable then none
    else if rest.isEmpty then some entry
    else if anyBit entry pteHuge then none
    else translateLevels write k (entryPage entry) rest

def tablePath (virt : Nat) : List Nat := [pml4Index virt, pdptIndex virt, pdIndex virt, ptIndex virt]

def vmmTranslateUserAddr (cr3Phys virtAddr : Nat) (write : Bool) (k : Machine) : Option Nat :=
  if userVirtMax ≤ virtAddr then none
  else (translateLevels write k (entryPage cr3Phys) (tablePath virtAddr)).map fun entry =>
    (entry &&& pteAddrMask) ||| (virtAddr &&& (pageSize - 1))

section

variable (freeChild : Nat → Machine → Except Panic (Nat × Machine)) (huge : Option Panic)

/-- The loop shared by the functions that give tables back: entries `index ..` of a table, `left` of
    them. `huge` is the panic on an entry for a huge page, where the level knows such entries. -/
def freeEntries (table index : Nat) : Nat → Nat → Machine → Except Panic (Nat × Machine)
  | 0, freed, k => .ok (freed, k)
  | left + 1, freed, k =>
    let entry := k.mem table index
    if !anyBit entry ptePresent then freeEntries table (index + 1) left freed k
    else
      match huge, anyBit entry pteHuge with
      | some panic, true => .error panic
      | _, _ => do
        let (count, k) ← freeChild (entry &&& pteAddrMask) k
        freeEntries table (index + 1) left (freed + count) (k.setWord table index 0)

def freeTable (tablePhys : Nat) (k : Machine) : Except Panic (Nat × Machine) := do
  let (freed, k) ← freeEntries freeChild huge (entryPage tablePhys) 0 512 0 k
  let k ← pmmFreePage (tablePhys &&& pteAddrMask) k
  return (freed + 1, k)

end

def freeLeaf (phys : Nat) (k : Machine) : Except Panic (Nat × Machine) := do
  let k ← pmmFreePage phys k
  return (1, k)

def vmmFreePt : Nat → Machine → Except Panic (Nat × Machine) := freeTable freeLeaf none

def vmmFreePd : Nat → Machine → Except Panic (Nat × Machine) := freeTable vmmFreePt (some .hugeUserPd)

def vmmFreePdpt : Nat → Machine → Except Panic (Nat × Machine) :=
  freeTable vmmFreePd (some .hugeUserPdpt)

/-- `vmm_destroy_user_address_space`: the lower half and the PML4 itself. -/
def vmmDestroyUserAddressSpace (cr3Phys : Nat) (k : Machine) : Except Panic (Nat × Machine) :=
  let cr3Phys := cr3Phys &&& pteAddrMask
  if cr3Phys = 0 ∨ cr3Phys = k.kernelCr3 ∨ cr3Phys = k.cr3 &&& pteAddrMask then .ok (0, k)
  else do
    let (freed, k) ← freeEntries vmmFreePdpt none (cr3Phys / pageSize) 0 256 0 k
    let k ← pmmFreePage cr3Phys k
    return (freed + 1, k)

/-- The two loops of `vmm_create_address_space`: an empty lower half, the kernel's upper half. -/
def Machine.fillPml4 (k : Machine) (page : Nat) : Machine :=
  { k with mem := Function.update k.mem page fun i =>
      if i < 256 then 0 else if i < 512 then k.mem (k.kernelCr3 / pageSize) i else k.mem page i }

def vmmCreateAddressSpace (k : Machine) : Except Panic (Nat × Machine) := do
  let (cr3Phys, k) ← pmmAllocPage k
  return (cr3Phys, k.fillPml4 (cr3Phys / pageSize))

def vmmCurrentAddressSpace (k : Machine) : Nat := k.cr3 &&& pteAddrMask

def vmmSwitchAddressSpace (cr3Phys : Nat) (k : Machine) : Machine :=
  if k.cr3 &&& pteAddrMask = cr3Phys &&& pteAddrMask then k else { k with cr3 := cr3Phys &&& pteAddrMask }

end TangPingOS
