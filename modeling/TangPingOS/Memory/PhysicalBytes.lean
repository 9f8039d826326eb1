import TangPingOS.Memory.PageTables

/-! # Bytes of physical memory

Memory is kept in words. A byte stored is the byte read back, and no other byte changes; so
a copy is described by the bytes it leaves behind. A copy to a page that is no page table changes
no translation.
-/

namespace TangPingOS

open Lib

namespace Machine

theorem byteAt_setByte (k : Machine) : (k.setByte phys b).byteAt q = if q = phys then b else k.byteAt q := by
  have word : k.setByte phys b = k.setWord (phys / pageSize) (phys % pageSize / 8)
      (putDigit 256 (k.mem (phys / pageSize) (phys % pageSize / 8)) (phys % 8) b.toNat) := rfl
  have small : b.toNat < 256 := b.toNat_lt
  rw [word, byteAt, byteAt, setWord_mem]
  apply UInt8.toNat.inj
  by_cases sameWord : q / pageSize = phys / pageSize ∧ q % pageSize / 8 = phys % pageSize / 8
  · rw [if_pos sameWord]
    by_cases same : q = phys
    · rw [if_pos same, same]
      exact putDigit_self small
    · have differs : q % 8 ≠ phys % 8 := by
        unfold pageSize at sameWord
        omega
      rw [if_neg same, sameWord.1, sameWord.2]
      exact putDigit_other small differs
  · have other : q ≠ phys := fun same => sameWord ⟨by rw [same], by rw [same]⟩
    rw [if_neg sameWord, if_neg other]

theorem byteAt_copyIn (k : Machine) :
    (k.copyIn phys bytes).byteAt q
      = if phys ≤ q ∧ q < phys + bytes.length then bytes.getD (q - phys) 0 else k.byteAt q := by
  induction bytes generalizing k phys with
  | nil => rw [if_neg (by simp), copyIn]
  | cons b rest ih =>
    rw [copyIn, ih, byteAt_setByte, List.length_cons]
    by_cases here : q = phys
    · subst here
      rw [if_neg (by omega), if_pos rfl, if_pos (by omega), Nat.sub_self, List.getD_cons_zero]
    · by_cases inside : phys + 1 ≤ q ∧ q < phys + 1 + rest.length
      · have next : q - phys = q - (phys + 1) + 1 := by omega
        rw [if_pos inside, if_pos (by omega), next, List.getD_cons_succ]
      · rw [if_neg inside, if_neg here, if_neg (by omega)]

end Machine

/-! ## Writing through a translation -/

theorem SameTables.of_onlyPage (only : Machine.OnlyPage page m m') (noTable : ¬ LowerTable cr3Phys m page) :
    SameTables cr3Phys m m' := by
  intro t table
  apply only.mem
  rintro rfl
  exact noTable table

def TablesHidden (cr3Phys : Nat) (m : Machine) : Prop :=
  ∀ virt phys, vmmTranslateUserAddr cr3Phys virt true m = some phys → ¬ LowerTable cr3Phys m (phys / pageSize)

theorem TablesHidden.congr (hidden : TablesHidden cr3Phys m)
    (same : SameTables cr3Phys m m') : TablesHidden cr3Phys m' := by
  intro virt phys found table
  rw [same.translate] at found
  exact hidden virt phys found (same.lowerTable_iff.mp table)

/-- In an address space as it is built the tables are hidden unless one of them is mapped. -/
theorem Tables.hidden (tables : Tables True roots k) (root : roots r)
    (apart : ∀ vp < userPages, ∀ entry, k.space r vp = some entry → ¬ IsTable roots k (entryPage entry)) :
    TablesHidden (r * pageSize) k := by
  rintro virt phys found ⟨p, path, short, table⟩
  rw [entryPage_mul (tables.root_lt root)] at table
  have low := vmmTranslateUserAddr_lt found
  rw [tables.vmmTranslateUserAddr_space root low] at found
  obtain ⟨entry, mapped, target⟩ := Option.bind_eq_some_iff.mp found
  split at target
  · cases target
    rw [place_page] at table
    exact apart _ (page_lt low) entry mapped ⟨r, p, ⟨root, path, short⟩, table⟩
  · cases target

end TangPingOS
