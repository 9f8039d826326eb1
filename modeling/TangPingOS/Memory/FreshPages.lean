import TangPingOS.Memory.PhysicalBytes

/-! # Pages mapped as they are allocated

The loader, the stack and the heap map each page right after `pmm_alloc_page` has handed it out.
Then no page is mapped twice and none is a table, and a user's memory can be seen as a function from
addresses to bytes, of which mapping a page replaces one page's worth.
-/

namespace TangPingOS

open Lib

/-- The byte at an address of the address space `r`, if its page is mapped. -/
def Machine.cell (k : Machine) (r addr : Nat) : Option UInt8 :=
  (k.space r (addr / pageSize)).map fun entry => k.byteAt (entryPage entry * pageSize + addr % pageSize)

/-- Address spaces whose pages are their own: in use, no tables, mapped once, and for users. -/
structure Filled (roots : Nat → Prop) (k : Machine) : Prop where
  tables : Tables True roots k
  used : ∀ r vp entry, roots r → vp < userPages → k.space r vp = some entry → k.pmm.used (entryPage entry)
  apart : ∀ r vp entry, roots r → vp < userPages → k.space r vp = some entry → ¬ IsTable roots k (entryPage entry)
  once : ∀ r r' vp vp' entry entry', roots r → roots r' → vp < userPages → vp' < userPages →
    k.space r vp = some entry → k.space r' vp' = some entry' → entryPage entry = entryPage entry' → r = r' ∧ vp = vp'
  user : ∀ r vp entry, roots r → vp < userPages → k.space r vp = some entry → anyBit entry pteUser

namespace Filled

variable {roots : Nat → Prop} {k k₁ k₂ k₃ : Machine} {r virt phys flags : Nat} {done : Bool}

section

variable (filled : Filled roots k) (root : roots r)

include filled root

theorem translate_read (low : virt < userVirtMax) :
    vmmTranslateUserAddr (r * pageSize) virt false k =
      (k.space r (virt / pageSize)).map fun entry => entryPage entry * pageSize + virt % pageSize := by
  rw [filled.tables.vmmTranslateUserAddr_space root low]
  cases found : k.space r (virt / pageSize) with
  | none => rfl
  | some entry =>
    have user := filled.user r (virt / pageSize) entry root (page_lt low) found
    simp [permits, user]

theorem cell_eq_some (low : virt < userVirtMax) :
    k.cell r virt = some b ↔ ∃ phys, vmmTranslateUserAddr (r * pageSize) virt false k = some phys ∧ k.byteAt phys = b := by
  rw [filled.translate_read root low, Machine.cell]
  cases k.space r (virt / pageSize) with
  | none => simp
  | some entry => simp

theorem hidden : TablesHidden (r * pageSize) k :=
  filled.tables.hidden root fun vp low entry found => filled.apart r vp entry root low found

end

theorem empty : Filled (fun _ => False) k where
  tables := Since.start.tables
  used _ _ _ root := root.elim
  apart _ _ _ root := root.elim
  once _ _ _ _ _ _ root := root.elim
  user _ _ _ root := root.elim

theorem create (filled : Filled roots k) (created : vmmCreateAddressSpace k = .ok (r * pageSize, k')) :
    Filled (planted roots r) k' ∧ ∀ vp < userPages, k'.space r vp = none := by
  obtain ⟨tables, held, same, empty⟩ := filled.tables.create created
  obtain ⟨page, inside, free, isPage, rfl⟩ := vmmCreateAddressSpace_ok created
  cases Nat.mul_right_cancel (by decide) isPage
  -- what is mapped was mapped before
  have old (r' vp entry : Nat) (root : planted roots r r') (low : vp < userPages)
      (found : ((k.takePage r inside).fillPml4 r).space r' vp = some entry) :
      roots r' ∧ k.space r' vp = some entry := by
    rcases root with before | rfl
    · rw [same r' vp before low] at found
      exact ⟨before, found⟩
    · rw [empty vp low] at found
      cases found
  refine ⟨⟨tables, ?_, ?_, ?_, ?_⟩, empty⟩
  · intro r' vp entry root low found
    obtain ⟨before, mapped⟩ := old r' vp entry root low found
    exact pmm_take_used inside (filled.used r' vp entry before low mapped)
  · intro r' vp entry root low found table
    obtain ⟨before, mapped⟩ := old r' vp entry root low found
    rcases held _ table with isTable | isNew
    · exact filled.apart r' vp entry before low mapped isTable
    · have isUsed := filled.used r' vp entry before low mapped
      rw [isNew, free] at isUsed
      cases isUsed
  · intro r₁ r₂ vp₁ vp₂ e₁ e₂ root₁ root₂ low₁ low₂ found₁ found₂
    obtain ⟨before₁, mapped₁⟩ := old r₁ vp₁ e₁ root₁ low₁ found₁
    obtain ⟨before₂, mapped₂⟩ := old r₂ vp₂ e₂ root₂ low₂ found₂
    exact filled.once r₁ r₂ vp₁ vp₂ e₁ e₂ before₁ before₂ low₁ low₂ mapped₁ mapped₂
  · intro r' vp entry root low found
    obtain ⟨before, mapped⟩ := old r' vp entry root low found
    exact filled.user r' vp entry before low mapped

/-- A page is allocated, written to and mapped. -/
structure Added (roots : Nat → Prop) (r virt entry : Nat) (contents : Nat → UInt8) (k k' : Machine) : Prop where
  filled : Filled roots k'
  here : k'.space r (virt / pageSize) = some entry
  elsewhere : ∀ r' vp, roots r' → vp < userPages → ¬ (r' = r ∧ vp = virt / pageSize) → k'.space r' vp = k.space r' vp
  cell : ∀ r' addr, roots r' → addr < userVirtMax → k'.cell r' addr =
    if r' = r ∧ addr / pageSize = virt / pageSize then some (contents (addr % pageSize)) else k.cell r' addr
  used : ∀ page, k.pmm.used page → k'.pmm.used page

theorem add (filled : Filled roots k) (root : roots r) (low : virt < userVirtMax) (aligned : virt % pageSize = 0)
    (combination : IsVmmFlags flags) (user : anyBit flags vmmFlagUser)
    (allocated : pmmAllocPage k = .ok (phys, k₁)) (written : Machine.OnlyPage (phys / pageSize) k₁ k₂)
    (ran : vmmMapPageIn (r * pageSize) virt phys flags k₂ = .ok (done, k₃)) :
    done ∧ Added roots r virt (pageEntry phys flags) (fun i => k₂.byteAt (phys + i)) k k₃ := by
  obtain ⟨page, inside, free, rfl, rfl⟩ := pmmAllocPage_ok allocated
  have exact_ : page * pageSize / pageSize = page := Nat.mul_div_cancel page (by decide)
  rw [exact_] at written
  have fresh := filled.tables.free_outside free
  have bound := k.pmm.page_small inside
  -- up to the mapping, only the new page has changed
  have mem (b : Nat) (other : b ≠ page) : k₂.mem b = k.mem b := by
    rw [written.mem b other]
    simp [Machine.takePage, Machine.zeroPage, other]
  have used (b : Nat) (isUsed : k.pmm.used b) : k₂.pmm.used b := by
    rw [written.pmm]
    exact pmm_take_used inside isUsed
  have notPage {b : Nat} (isUsed : k.pmm.used b) : b ≠ page := Pmm.ne_of_used isUsed free
  obtain ⟨tables₂, sameTables, sameSpaces⟩ := filled.tables.keep
    (fun t table => mem t (notPage (filled.tables.owned t table).1))
    (fun t table => used t (filled.tables.owned t table).1) (by rw [written.pmm]; rfl)
  have pageUsed : k₂.pmm.used page := by
    rw [written.pmm]
    simp [Machine.takePage, Pmm.take]
  have pageApart : ¬ IsTable roots k₂ page := fun table => fresh ((sameTables page).mp table)
  obtain ⟨isDone, mapped⟩ := vmmMapPageIn_mapped tables₂ root low aligned (Nat.mul_mod_left page pageSize)
    (fun _ => user) ran
  have target : entryPage (pageEntry (page * pageSize) flags) = page := by
    have whole := entryPage_pageEntry (Nat.mul_mod_left page pageSize) (by unfold pageSize; omega) combination
    exact Nat.mul_right_cancel (by decide) whole
  have elsewhere (r' vp : Nat) (root' : roots r') (low' : vp < userPages)
      (other : ¬ (r' = r ∧ vp = virt / pageSize)) : k₃.space r' vp = k.space r' vp := by
    rw [mapped.elsewhere r' vp root' low' other, sameSpaces r' vp root' low']
  -- a mapped page is the new one in its place, or an old one
  have cases_ (r' vp entry : Nat) (root' : roots r') (low' : vp < userPages) (found : k₃.space r' vp = some entry) :
      (r' = r ∧ vp = virt / pageSize ∧ entry = pageEntry (page * pageSize) flags) ∨
        (¬ (r' = r ∧ vp = virt / pageSize) ∧ k.space r' vp = some entry) := by
    by_cases same : r' = r ∧ vp = virt / pageSize
    · rw [same.1, same.2, mapped.here] at found
      exact .inl ⟨same.1, same.2, (Option.some.inj found).symm⟩
    · rw [elsewhere r' vp root' low' same] at found
      exact .inr ⟨same, found⟩
  have stays {b : Nat} (isUsed : k.pmm.used b) (noTable : ¬ IsTable roots k b) :
      ¬ IsTable roots k₃ b ∧ k₃.mem b = k.mem b := by
    have noTable₂ : ¬ IsTable roots k₂ b := fun table => noTable ((sameTables b).mp table)
    refine ⟨?_, ?_⟩
    · intro table
      rcases mapped.fresh b table with old | isFree
      · exact noTable₂ old
      · exact Pmm.ne_of_used (used b isUsed) isFree rfl
    · rw [mapped.foreign b (used b isUsed) noTable₂, mem b (notPage isUsed)]
  refine ⟨isDone, ⟨mapped.tables, ?_, ?_, ?_, ?_⟩, mapped.here, elsewhere, ?_, ?_⟩
  · intro r' vp entry root' low' found
    rcases cases_ r' vp entry root' low' found with ⟨-, -, rfl⟩ | ⟨-, old⟩
    · rw [target]
      exact mapped.used page pageUsed
    · exact mapped.used _ (used _ (filled.used r' vp entry root' low' old))
  · intro r' vp entry root' low' found
    rcases cases_ r' vp entry root' low' found with ⟨-, -, rfl⟩ | ⟨-, old⟩
    · rw [target]
      intro table
      rcases mapped.fresh page table with before | isFree
      · exact pageApart before
      · exact Pmm.ne_of_used pageUsed isFree rfl
    · exact (stays (filled.used r' vp entry root' low' old) (filled.apart r' vp entry root' low' old)).1
  · intro r₁ r₂ vp₁ vp₂ e₁ e₂ root₁ root₂ low₁ low₂ found₁ found₂ same
    rcases cases_ r₁ vp₁ e₁ root₁ low₁ found₁ with ⟨rfl, rfl, rfl⟩ | ⟨-, old₁⟩
    · rcases cases_ r₂ vp₂ e₂ root₂ low₂ found₂ with ⟨rfl, rfl, -⟩ | ⟨-, old₂⟩
      · exact ⟨rfl, rfl⟩
      · rw [target] at same
        exact absurd same.symm (notPage (filled.used r₂ vp₂ e₂ root₂ low₂ old₂))
    · rcases cases_ r₂ vp₂ e₂ root₂ low₂ found₂ with ⟨-, -, rfl⟩ | ⟨-, old₂⟩
      · rw [target] at same
        exact absurd same (notPage (filled.used r₁ vp₁ e₁ root₁ low₁ old₁))
      · exact filled.once r₁ r₂ vp₁ vp₂ e₁ e₂ root₁ root₂ low₁ low₂ old₁ old₂ same
  · intro r' vp entry root' low' found
    rcases cases_ r' vp entry root' low' found with ⟨-, -, rfl⟩ | ⟨-, old⟩
    · exact (anyBit_pageEntry (by decide) (by decide) (by decide) (by decide) (by decide)).trans user
    · exact filled.user r' vp entry root' low' old
  · intro r' addr root' lowA
    by_cases same : r' = r ∧ addr / pageSize = virt / pageSize
    · have contents := mapped.foreign page pageUsed pageApart
      rw [if_pos same, Machine.cell, same.1, same.2, mapped.here, Option.map_some, target, Machine.byteAt,
        Machine.byteAt, place_page, contents]
    · rw [if_neg same, Machine.cell, Machine.cell, elsewhere r' _ root' (page_lt lowA) same]
      cases old : k.space r' (addr / pageSize) with
      | none => rfl
      | some entry =>
        have isUsed := filled.used r' _ entry root' (page_lt lowA) old
        have kept := (stays isUsed (filled.apart r' _ entry root' (page_lt lowA) old)).2
        rw [Option.map_some, Option.map_some, Machine.byteAt, Machine.byteAt, place_page, kept]
  · exact fun b isUsed => mapped.used b (used b isUsed)

end Filled

end TangPingOS
