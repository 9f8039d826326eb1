import TangPingOS.Memory.PageAllocator

/-! # Enough free pages

Allocation fails for want of a free page and for no other reason. So a function that maps pages
runs to its end where enough pages are free: one a page, and up to three for the tables on the way
to it.
-/

namespace TangPingOS

/-- `n` pages are free, in an allocator whose count is exact. -/
def Room (n : Nat) (k : Machine) : Prop := ∃ usable, PmmOk usable k.pmm ∧ n ≤ k.pmm.clearPages.card

namespace Room

variable {n : Nat} {k k' : Machine}

theorem mono (room : Room m k) (le : n ≤ m) : Room n k := by
  obtain ⟨usable, ok, many⟩ := room
  exact ⟨usable, ok, le.trans many⟩

theorem congr (room : Room n k) (same : k'.pmm = k.pmm) : Room n k' := by
  unfold Room
  rw [same]
  exact room

theorem alloc (room : Room (n + 1) k) : ∃ phys k', pmmAllocPage k = .ok
    (phys, k') ∧ phys % pageSize = 0 ∧ Room n k' := by
  obtain ⟨usable, ok, many⟩ := room
  cases ran : pmmAllocPage k with
  | error panic =>
    have full : k.pmm.findFree = none := by
      unfold pmmAllocPage at ran
      split at ran
      · assumption
      · cases ran
    obtain ⟨page, clear⟩ := Finset.card_pos.mp (Nat.lt_of_lt_of_le (Nat.succ_pos n) many)
    have free := (PmmOk.mem_clearPages.mp clear).2
    rw [findFree_none ok full] at free
    cases free
  | ok taken =>
    obtain ⟨phys, k'⟩ := taken
    obtain ⟨page, inside, free, rfl, rfl⟩ := pmmAllocPage_ok ran
    refine ⟨_, _, rfl, Nat.mul_mod_left page pageSize, usable, ok.take inside free, ?_⟩
    have member := PmmOk.mem_clearPages.mpr ⟨inside.trans_le k.pmm.bounded, free⟩
    have fewer : (k.takePage page inside).pmm.clearPages = k.pmm.clearPages.erase page := PmmOk.clearPages_setUsed
    rw [fewer, Finset.card_erase_of_mem member]
    omega

theorem nextLevel (room : Room (n + 1) k) (table index flags : Nat) :
    ∃ next k', vmmNextLevel table index flags k = .ok (next, k') ∧ Room n k' := by
  unfold vmmNextLevel
  split
  · obtain ⟨phys, k₁, allocated, -, room₁⟩ := room.alloc
    rw [allocated]
    exact ⟨_, _, rfl, room₁.congr rfl⟩
  · refine ⟨_, _, rfl, (room.mono (Nat.le_succ n)).congr ?_⟩
    split <;> rfl

theorem mapPageIn (room : Room (n + 3) k) (virtOk : virt % pageSize = 0) (physOk : phys % pageSize = 0)
    (cr3Phys flags : Nat) : ∃ k', vmmMapPageIn cr3Phys virt phys flags k = .ok (true, k') ∧ Room n k' := by
  unfold vmmMapPageIn
  rw [if_neg (by omega)]
  obtain ⟨pdpt, k₁, entered₁, room₁⟩ := room.nextLevel (entryPage cr3Phys) (pml4Index virt) flags
  obtain ⟨pd, k₂, entered₂, room₂⟩ := room₁.nextLevel pdpt (pdptIndex virt) flags
  obtain ⟨pt, k₃, entered₃, room₃⟩ := room₂.nextLevel pd (pdIndex virt) flags
  simp only [entered₁, entered₂, entered₃, bind, Except.bind]
  exact ⟨_, rfl, room₃.congr rfl⟩

theorem createAddressSpace (room : Room (n + 1) k) : ∃ cr3Phys k', vmmCreateAddressSpace k = .ok
    (cr3Phys, k') ∧ Room n k' := by
  obtain ⟨phys, k₁, allocated, -, room₁⟩ := room.alloc
  unfold vmmCreateAddressSpace
  rw [allocated]
  exact ⟨_, _, rfl, room₁.congr rfl⟩

end Room

end TangPingOS
