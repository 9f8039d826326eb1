import TangPingOS.Lib.Forest
import TangPingOS.Memory.Paging

/-! # Entries of page tables

The page that an entry leads to, the flags beside it, and the paths of indices that lead through the
tables of a lower half.
-/

namespace TangPingOS

open Lib

variable {p : List Nat} {index page table : Nat} {mem : Nat → Nat → Nat}

def links (mem : Nat → Nat → Nat) (table index : Nat) : Option Nat :=
  if anyBit (mem table index) ptePresent then some (entryPage (mem table index)) else none

theorem links_eq_some :
    links mem table index = some page ↔
      anyBit (mem table index) ptePresent ∧ entryPage (mem table index) = page := by
  unfold links
  split
  · rename_i present
    simp [present]
  · rename_i absent
    simp [absent]

theorem links_eq_none : links mem table index = none ↔ anyBit (mem table index) ptePresent = false := by
  unfold links
  split <;> simp_all

theorem links_congr
    (same : mem' table index = mem table index) : links mem' table index = links mem table index := by
  unfold links
  rw [same]

/-- An entry made of a page and of bits outside the address field. -/
theorem entryPage_or (small : page < 2 ^ 40) (apart : bits &&& pteAddrMask = 0) :
    entryPage (page * pageSize ||| bits) = page := by
  have field : page * pageSize &&& pteAddrMask = page * pageSize := mul_and_field 12 small
  rw [entryPage, Nat.and_or_distrib_right, field, apart, Nat.or_zero,
    Nat.mul_div_cancel page (by decide)]

theorem entryPage_mul (small : page < 2 ^ 40) : entryPage (page * pageSize) = page := by
  have plain := entryPage_or small (Nat.zero_and _)
  rwa [Nat.or_zero] at plain

theorem mask_mul (small : page < 2 ^ 40) : page * pageSize &&& pteAddrMask = page * pageSize :=
  mul_and_field 12 small

theorem anyBit_page (low : bit < 12) : anyBit (page * pageSize) (2 ^ bit) = false := by
  have clear : page * pageSize &&& 2 ^ bit = 0 := by
    have below : page * 2 ^ 12 &&& 2 ^ bit = 0 := mul_and_low low
    exact below
  simp [anyBit, clear]

/-- Setting the user bit changes neither the target nor the kind of an entry. -/
theorem entryPage_user : entryPage (entry ||| pteUser) = entryPage entry := by
  have apart : pteUser &&& pteAddrMask = 0 := by decide
  rw [entryPage, Nat.and_or_distrib_right, apart, Nat.or_zero, entryPage]

theorem anyBit_user (apart : anyBit pteUser mask = false) :
    anyBit (entry ||| pteUser) mask = anyBit entry mask := by
  rw [anyBit_or, apart, Bool.or_false]

/-- A path that starts in the lower half: up to four indices, the first below 256. -/
def UserPath (p : List Nat) : Prop :=
  p.length ≤ 4 ∧ (∀ i ∈ p, i < 512) ∧ ∀ i ∈ p.head?, i < 256

theorem UserPath.shorter (path : UserPath (p ++ [i])) : UserPath p := by
  obtain ⟨short, small, low⟩ := path
  rw [List.length_append] at short
  refine ⟨by omega, fun j member => small j (List.mem_append_left _ member), fun j head => low j ?_⟩
  cases p with
  | nil => cases head
  | cons => exact head

theorem UserPath.of_begins (path : UserPath q) (le : p <+: q) : UserPath p := by
  obtain ⟨rest, rfl⟩ := le
  induction rest using List.reverseRecOn with
  | nil => simpa using path
  | append_singleton rest i ih =>
    rw [← List.append_assoc] at path
    exact ih path.shorter

theorem userPath_tablePath (low : virt < userVirtMax) : UserPath (tablePath virt) := by
  simp only [userVirtMax] at low
  simp only [UserPath, tablePath, pml4Index, pdptIndex, pdIndex, ptIndex, List.length_cons,
    List.length_nil, List.forall_mem_cons, List.head?_cons, Option.mem_def, Option.some.injEq]
  refine ⟨by omega, ?_, ?_⟩
  · refine ⟨by omega, by omega, by omega, by omega, nofun⟩
  · omega

def Machine.root (k : Machine) : Nat := k.kernelCr3 / pageSize

/-- A page of the lower half of the address space `r`: its PML4, a table or a mapped page. -/
def UserPage (k : Machine) (r page : Nat) : Prop :=
  ∃ p, UserPath p ∧ walk (links k.mem) r p = some page


/-- The entry that `vmm_next_level` makes for a new table. -/
theorem tableEntry (small : page < 2 ^ 40) (flags : Nat) :
    let entry := page * pageSize ||| ptePresent ||| pteWritable ||| (flags &&& pteUser)
    anyBit entry ptePresent ∧ entryPage entry = page := by
  have bits : (ptePresent ||| pteWritable ||| (flags &&& pteUser)) &&& pteAddrMask = 0 := by
    have first : (ptePresent ||| pteWritable) &&& pteAddrMask = 0 := by decide
    have second : pteUser &&& pteAddrMask = 0 := by decide
    rw [Nat.and_or_distrib_right, first, Nat.and_assoc, second, Nat.and_zero, Nat.or_zero]
  refine ⟨?_, ?_⟩
  · have here : anyBit ptePresent ptePresent := by decide
    simp [anyBit_or, here]
  · have grouped := entryPage_or small bits
    rwa [← Nat.or_assoc, ← Nat.or_assoc] at grouped

end TangPingOS
