import TangPingOS.Memory.PhysicalBytes
import TangPingOS.Process.Syscalls

/-! # Copies between the kernel and a user

The loops of `kernel/usercopy.c` go page by page, and what they come to is a matter of single
bytes: a range is accepted if every byte of it is permitted, and only these bytes are read or written.
A copy to the user could change its own translation if a page table was mapped for the user;
where none is, it does not.
-/

namespace TangPingOS

open Lib

theorem copyFromUserPages_readable
    (copied : copyFromUserPages (vmmCurrentAddressSpace m) m rounds addr len = some bytes) : Readable addr len m := by
  induction rounds generalizing addr len bytes with
  | zero =>
    cases len with
    | zero => exact fun i low => absurd low (Nat.not_lt_zero i)
    | succ len => cases copied
  | succ rounds ih =>
    cases len with
    | zero => exact fun i low => absurd low (Nat.not_lt_zero i)
    | succ len =>
      cases found : vmmTranslateUserAddr (vmmCurrentAddressSpace m) addr false m with
      | none =>
        simp only [copyFromUserPages, found] at copied
        cases copied
      | some phys =>
        simp only [copyFromUserPages, found] at copied
        obtain ⟨rest, later, -⟩ := Option.map_eq_some_iff.mp copied
        have positive : 0 < pageSize - addr % pageSize := Nat.sub_pos_of_lt (Nat.mod_lt addr (by decide))
        exact (permitted_page (Nat.min_le_right _ _) (by omega) (Nat.min_le_left _ _)).mpr
          ⟨by rw [found]; rfl, ih later⟩

theorem Permitted.straight
    (permitted : Permitted cr3Phys base len write m) (some_ : 0 < len) : rangeWraps base len = false := by
  obtain ⟨phys, found⟩ := Option.isSome_iff_exists.mp (permitted (len - 1) (by omega))
  have last := vmmTranslateUserAddr_lt found
  have exact_ : wrap64 (base + len - 1) = base + len - 1 := by
    apply Nat.mod_eq_of_lt
    unfold userVirtMax at last
    omega
  simp only [rangeWraps, Bool.and_eq_false_iff, decide_eq_false_iff_not]
  omega

theorem usercopyValidateRange_iff (some_ : 0 < len) :
    usercopyValidateRange base len write m ↔ Permitted (vmmCurrentAddressSpace m) base len write m := by
  rw [usercopyValidateRange, if_neg (Nat.ne_of_gt some_)]
  by_cases wraps : rangeWraps base len
  · rw [if_pos wraps]
    constructor
    · intro never
      cases never
    · intro permitted
      rw [permitted.straight some_] at wraps
      cases wraps
  · rw [if_neg wraps]
    exact validatePages_iff (Nat.le_refl len)

theorem copyFromUser_iff (some_ : 0 < len) (real : base ≠ 0) :
    copyFromUser base len m = some bytes ↔ Readable base len m ∧ bytes = userBytes base len m := by
  constructor
  · intro copied
    have readable : Readable base len m := by
      unfold copyFromUser at copied
      rw [if_neg (Nat.ne_of_gt some_)] at copied
      split at copied
      · cases copied
      · exact copyFromUserPages_readable copied
    have whole : copyFromUser (wrap64 (base + 0)) len m = some (((userBytes base len m).drop 0).take len) :=
      copyFromUser_part readable (by omega) (by omega)
    have bound := readable.bound some_
    have same : wrap64 (base + 0) = base := Nat.mod_eq_of_lt (by unfold userVirtMax at bound; omega)
    rw [same, copied, List.take_of_length_le (by simp)] at whole
    exact ⟨readable, Option.some.inj whole⟩
  · rintro ⟨readable, rfl⟩
    have straight := Permitted.straight readable some_
    rw [copyFromUser, if_neg (Nat.ne_of_gt some_), if_neg (by simp [real, straight])]
    exact copyFromUserPages_eq readable (Nat.le_refl len)

theorem userBytes_succ : userBytes base (len + 1) m = userByte base m :: userBytes (base + 1) len m := by
  rw [Nat.add_comm len 1, userBytes_append]
  rfl

/-- The characters before the first zero, if that comes soon enough and everything up to it is readable. -/
theorem copyCharacters_iff (small : addr < 2 ^ 64) :
    copyCharacters (vmmCurrentAddressSpace m) m left addr = some s ↔
      s.length < left ∧ 0 ∉ s ∧ Readable addr (s.length + 1) m ∧ userBytes addr (s.length + 1) m = s ++ [0] := by
  induction left generalizing addr s with
  | zero => simp [copyCharacters]
  | succ left ih =>
    have same : wrap64 addr = addr := Nat.mod_eq_of_lt small
    rw [copyCharacters, same]
    cases found : vmmTranslateUserAddr (vmmCurrentAddressSpace m) addr false m with
    | none =>
      constructor
      · intro copied
        cases copied
      · rintro ⟨-, -, readable, -⟩
        have first := readable 0 (by omega)
        rw [Nat.add_zero, found] at first
        cases first
    | some phys =>
      have low := vmmTranslateUserAddr_lt found
      have here : userByte addr m = m.byteAt phys := by simp only [userByte, found]
      have readable_succ (len : Nat) : Readable addr (len + 1) m ↔ Readable (addr + 1) len m := by
        constructor
        · intro readable i inside
          rw [Nat.add_assoc, Nat.add_comm 1]
          exact readable (i + 1) (by omega)
        · intro readable i inside
          cases i with
          | zero => rw [Nat.add_zero, found]; rfl
          | succ i =>
            have later := readable i (by omega)
            rwa [Nat.add_assoc, Nat.add_comm 1] at later
      have next := @ih (addr + 1)
      simp only [readable_succ, userBytes_succ, here]
      by_cases zero : m.byteAt phys = 0
      · rw [zero]
        constructor
        · intro copied
          cases copied
          exact ⟨by simp, by simp, fun i inside => absurd inside (Nat.not_lt_zero i), rfl⟩
        · rintro ⟨-, free, -, whole⟩
          cases s with
          | nil => rfl
          | cons c s =>
            cases (List.cons.inj whole).1
            exact absurd List.mem_cons_self free
      · rw [if_neg zero]
        constructor
        · intro copied
          obtain ⟨rest, later, rfl⟩ := Option.map_eq_some_iff.mp copied
          obtain ⟨short, free, readable, whole⟩ := (next (by unfold userVirtMax at low; omega)).mp later
          refine ⟨by simpa using short, ?_, readable, by rw [List.length_cons, List.cons_append, whole]⟩
          rw [List.mem_cons, not_or]
          exact ⟨fun isZero => zero isZero.symm, free⟩
        · rintro ⟨short, free, readable, whole⟩
          cases s with
          | nil =>
            exact absurd (List.cons.inj whole).1 zero
          | cons c s =>
            obtain ⟨rfl, rest⟩ := List.cons.inj whole
            rw [List.mem_cons, not_or] at free
            rw [(next (by unfold userVirtMax at low; omega)).mpr
              ⟨by simpa using short, free.2, readable, rest⟩, Option.map_some]

theorem copyStringFromUser_iff (small : addr < 2 ^ 64) (real : addr ≠ 0) :
    copyStringFromUser addr maxLen m = some s ↔
      s.length < maxLen ∧ 0 ∉ s ∧ Readable addr (s.length + 1) m ∧ userBytes addr (s.length + 1) m = s ++ [0] := by
  rw [← copyCharacters_iff small, copyStringFromUser]
  cases maxLen with
  | zero => simp [copyCharacters]
  | succ maxLen => rw [if_neg (by simp [real])]

def Unaliased (cr3Phys base len : Nat) (m : Machine) : Prop :=
  ∀ i < len, ∀ j < len, ∀ q, vmmTranslateUserAddr cr3Phys (base + i) true m = some q →
    vmmTranslateUserAddr cr3Phys (base + j) true m = some q → i = j

theorem vmmTranslateUserAddr_mod (found : vmmTranslateUserAddr cr3Phys virt write m = some phys) :
    phys % pageSize = virt % pageSize := by
  rw [vmmTranslateUserAddr_eq] at found
  obtain ⟨page, -, rfl⟩ := Option.map_eq_some_iff.mp found
  rw [Nat.mul_add_mod', Nat.mod_mod]

/-- A chunk that stays in a page of the user's is written to one page of memory. -/
theorem onlyPage_chunk {chunk : Bytes} (found : vmmTranslateUserAddr cr3Phys addr true m = some phys)
    (inside : chunk.length ≤ pageSize - addr % pageSize) :
    Machine.OnlyPage (phys / pageSize) m (m.copyIn phys chunk) := by
  have offset := vmmTranslateUserAddr_mod found
  apply m.onlyPage_copyIn (Nat.div_mul_le_self phys pageSize)
  unfold pageSize at *
  omega

/-- What a copy to the user has done. -/
structure CopiedTo (cr3Phys addr : Nat) (src : Bytes) (m : Machine) (result : Bool × Machine) : Prop where
  done : result.1 ↔ Permitted cr3Phys addr src.length true m
  here : result.1 → Unaliased cr3Phys addr src.length m → ∀ i < src.length, ∀ q,
    vmmTranslateUserAddr cr3Phys (addr + i) true m = some q → result.2.byteAt q = src.getD i 0
  other : ∀ q, (∀ i < src.length, vmmTranslateUserAddr cr3Phys (addr + i) true m ≠ some q) →
    result.2.byteAt q = m.byteAt q
  pages : ∀ page, (∀ i < src.length, ∀ q, vmmTranslateUserAddr cr3Phys (addr + i) true m = some q →
    q / pageSize ≠ page) → result.2.mem page = m.mem page
  pmm : result.2.pmm = m.pmm
  cr3 : result.2.cr3 = m.cr3
  kernelCr3 : result.2.kernelCr3 = m.kernelCr3
  heap : result.2.heap = m.heap

namespace CopiedTo

variable {cr3Phys addr count phys : Nat} {src : Bytes} {m : Machine} {result : Bool × Machine}

/-- A range that is not permitted from its start on: nothing happens. -/
theorem refused (forbidden : ¬ Permitted cr3Phys addr src.length true m) : CopiedTo cr3Phys addr src m
    (false, m) where
  done := iff_of_false Bool.false_ne_true forbidden
  here never := by cases never
  other _ _ := rfl
  pages _ _ := rfl
  pmm := rfl
  cr3 := rfl
  kernelCr3 := rfl
  heap := rfl

theorem nothing : CopiedTo cr3Phys addr [] m (true, m) where
  done := ⟨fun _ i low => absurd low (Nat.not_lt_zero i), fun _ => rfl⟩
  here _ _ i low := absurd low (Nat.not_lt_zero i)
  other _ _ := rfl
  pages _ _ := rfl
  pmm := rfl
  cr3 := rfl
  kernelCr3 := rfl
  heap := rfl

theorem tables (copied : CopiedTo cr3Phys addr src m result) (hidden : TablesHidden cr3Phys m) :
    SameTables cr3Phys m result.2 := by
  intro t table
  apply copied.pages
  rintro i - q found rfl
  exact hidden _ q found table

theorem page (found : vmmTranslateUserAddr cr3Phys addr true m = some phys) (some_ : 0 < count)
    (within : count ≤ src.length) (inside : count ≤ pageSize - addr % pageSize)
    (same : SameTables cr3Phys m (m.copyIn phys (src.take count)))
    (rest : CopiedTo cr3Phys (addr + count) (src.drop count) (m.copyIn phys (src.take count)) result) :
    CopiedTo cr3Phys addr src m result := by
  have length := List.length_take_of_le within
  have left : (src.drop count).length = src.length - count := List.length_drop
  have first (i : Nat) (low : i < count) : vmmTranslateUserAddr cr3Phys (addr + i) true m = some (phys + i) :=
    vmmTranslateUserAddr_add found (by omega)
  have later (i : Nat) (low : i < src.length - count) :
      vmmTranslateUserAddr cr3Phys (addr + count + i) true (m.copyIn phys (src.take count)) =
        vmmTranslateUserAddr cr3Phys (addr + (count + i)) true m := by
    rw [same.translate, Nat.add_assoc]
  have only := onlyPage_chunk found (by rw [length]; exact inside)
  have translates (i : Nat) : vmmTranslateUserAddr cr3Phys i true (m.copyIn phys (src.take count)) =
      vmmTranslateUserAddr cr3Phys i true m := same.translate i true
  refine ⟨?_, ?_, ?_, ?_, ?_, ?_, ?_, ?_⟩
  · rw [rest.done, permitted_page within some_ inside, found, left]
    simp [Permitted, translates]
  · intro isDone unaliased i low q target
    by_cases near : i < count
    · -- the rest of the copy does not come back to this byte
      rw [first i near] at target
      cases target
      have untouched : ∀ j < (src.drop count).length, vmmTranslateUserAddr cr3Phys (addr + count + j) true
          (m.copyIn phys (src.take count)) ≠ some (phys + i) := by
        intro j below again
        rw [left] at below
        rw [later j below] at again
        have equal := unaliased i low (count + j) (by omega) (phys + i) (first i near) again
        omega
      rw [rest.other _ untouched, Machine.byteAt_copyIn, if_pos (by omega), Nat.add_sub_cancel_left,
        List.getD_eq_getElem?_getD, List.getElem?_take_of_lt near, ← List.getD_eq_getElem?_getD]
    · have split : addr + i = addr + count + (i - count) := by omega
      have value : (src.drop count).getD (i - count) 0 = src.getD i 0 := by
        rw [List.getD_eq_getElem?_getD, List.getElem?_drop, Nat.add_sub_cancel' (Nat.not_lt.mp near),
          ← List.getD_eq_getElem?_getD]
      rw [← value]
      apply rest.here isDone _ (i - count) (by omega) q
      · rw [translates, ← split]
        exact target
      · intro a lowA b lowB q foundA foundB
        rw [left] at lowA lowB
        rw [later a lowA] at foundA
        rw [later b lowB] at foundB
        have equal := unaliased (count + a) (by omega) (count + b) (by omega) q foundA foundB
        omega
  · intro q outside
    rw [rest.other q, Machine.byteAt_copyIn, if_neg]
    · rintro ⟨low, high⟩
      apply outside (q - phys) (by omega)
      rw [first (q - phys) (by omega), Nat.add_sub_cancel' low]
    · intro i low
      rw [left] at low
      rw [later i low]
      exact outside (count + i) (by omega)
  · intro page outside
    rw [rest.pages page, only.mem]
    · rintro rfl
      have zero := outside 0 (by omega) phys
      exact zero found rfl
    · intro i low q target
      rw [left] at low
      rw [later i low] at target
      exact outside (count + i) (by omega) q target
  · exact rest.pmm.trans only.pmm
  · exact rest.cr3.trans only.cr3
  · exact rest.kernelCr3.trans only.kernelCr3
  · exact rest.heap.trans only.heap

end CopiedTo

theorem copyToUserPages_spec {cr3Phys rounds addr src m} (hidden : TablesHidden cr3Phys m)
    (enough : src.length ≤ rounds) : CopiedTo cr3Phys addr src m (copyToUserPages cr3Phys rounds addr src m) := by
  induction rounds generalizing addr src m with
  | zero =>
    obtain rfl : src = [] := List.length_eq_zero_iff.mp (by omega)
    exact .nothing
  | succ rounds ih =>
    cases src with
    | nil => exact .nothing
    | cons b rest =>
      have positive : 0 < pageSize - addr % pageSize := Nat.sub_pos_of_lt (Nat.mod_lt addr (by decide))
      cases found : vmmTranslateUserAddr cr3Phys addr true m with
      | none =>
        simp only [copyToUserPages, found]
        apply CopiedTo.refused
        intro permitted
        have first := permitted 0 (by simp)
        rw [Nat.add_zero, found] at first
        cases first
      | some phys =>
        simp only [copyToUserPages, found]
        generalize isCount : min (pageSize - addr % pageSize) (b :: rest).length = count
        have some_ : 0 < count := by
          rw [List.length_cons] at isCount
          omega
        have same : SameTables cr3Phys m (m.copyIn phys ((b :: rest).take count)) := by
          apply SameTables.of_onlyPage (onlyPage_chunk found _) (hidden addr phys found)
          rw [List.length_take]
          omega
        apply CopiedTo.page found some_ (by omega) (by omega) same
        apply ih (hidden.congr same)
        rw [List.length_drop]
        omega

theorem copyToUser_spec (hidden : TablesHidden (vmmCurrentAddressSpace m) m)
    (real : addr ≠ 0) : CopiedTo (vmmCurrentAddressSpace m) addr src m (copyToUser addr src m) := by
  unfold copyToUser
  by_cases empty : src.length = 0
  · rw [List.length_eq_zero_iff.mp empty]
    exact .nothing
  · rw [if_neg empty]
    by_cases wraps : rangeWraps addr src.length
    · rw [if_pos (.inr wraps)]
      apply CopiedTo.refused
      intro permitted
      rw [permitted.straight (by omega)] at wraps
      cases wraps
    · rw [if_neg (by simp [real, wraps])]
      exact copyToUserPages_spec hidden (Nat.le_refl _)

theorem translateLevels_read
    (found : translateLevels true k t path = some entry) : translateLevels false k t path = some entry := by
  induction path generalizing t with
  | nil => cases found
  | cons index rest ih =>
    simp only [translateLevels] at found ⊢
    split at found
    · cases found
    rename_i open_
    split at found
    · cases found
    rw [if_neg open_, if_neg (by simp)]
    split at found
    · rename_i last
      rw [if_pos last]
      exact found
    rename_i more
    split at found
    · cases found
    rename_i small
    rw [if_neg more, if_neg small]
    exact ih found

theorem vmmTranslateUserAddr_read (found : vmmTranslateUserAddr cr3Phys virt true k = some phys) :
    vmmTranslateUserAddr cr3Phys virt false k = some phys := by
  unfold vmmTranslateUserAddr at found ⊢
  split at found
  · cases found
  rename_i low
  obtain ⟨entry, walked, isPhys⟩ := Option.map_eq_some_iff.mp found
  rw [if_neg low, translateLevels_read walked, Option.map_some, isPhys]

/-- Less than a page is not written over itself. -/
theorem unaliased_short (short : len ≤ pageSize) : Unaliased cr3Phys base len m := by
  intro i low j low' q found found'
  have same := (vmmTranslateUserAddr_mod found).symm.trans (vmmTranslateUserAddr_mod found')
  unfold pageSize at same short
  omega

/-- What was copied to a permitted place is read there afterwards. -/
theorem copyToUser_read (hidden : TablesHidden (vmmCurrentAddressSpace m) m) (real : addr ≠ 0)
    (short : src.length ≤ pageSize) (permitted : Permitted (vmmCurrentAddressSpace m) addr src.length true m) :
    (copyToUser addr src m).1 ∧ userBytes addr src.length (copyToUser addr src m).2 = src := by
  have copied : CopiedTo _ addr src m _ := copyToUser_spec hidden real
  have done := copied.done.mpr permitted
  refine ⟨done, ext_getD (by simp) fun i low => ?_⟩
  rw [length_userBytes] at low
  obtain ⟨q, found⟩ := Option.isSome_iff_exists.mp (permitted i low)
  have here := copied.here done (unaliased_short short) i low q found
  have current : vmmCurrentAddressSpace (copyToUser addr src m).2 = vmmCurrentAddressSpace m :=
    congrArg (· &&& pteAddrMask) copied.cr3
  rw [← here, userBytes, List.getD_eq_getElem _ _ (by simpa using low), List.getElem_map, List.getElem_range,
    userByte, current, (copied.tables hidden).translate, vmmTranslateUserAddr_read found]

/-- Copies touch exactly the bytes asked for: they succeed if all of them are permitted, and no other byte of memory
    is read into the result or changed. -/
theorem usercopy_exact {m : Machine} {addr len : Nat} (small : addr < 2 ^ 64) (some_ : 0 < len) :
    (∀ write, usercopyValidateRange addr len write m = true ↔
      addr + len - 1 < 2 ^ 64 ∧ Permitted (vmmCurrentAddressSpace m) addr len write m) ∧
    (addr ≠ 0 → ∀ bytes, copyFromUser addr len m = some bytes ↔ (addr + len - 1 < 2 ^ 64 ∧
      Permitted (vmmCurrentAddressSpace m) addr len false m) ∧ bytes = userBytes addr len m) ∧
    (TablesHidden (vmmCurrentAddressSpace m) m → ∀ src, src.length = len →
      (addr ≠ 0 → ((copyToUser addr src m).1 = true ↔ addr + len - 1 < 2 ^ 64 ∧
        Permitted (vmmCurrentAddressSpace m) addr len true m)) ∧
      ∀ q, (∀ i < len, vmmTranslateUserAddr (vmmCurrentAddressSpace m) (addr + i) true m ≠ some q) →
        (copyToUser addr src m).2.byteAt q = m.byteAt q) ∧
    (addr ≠ 0 → ∀ maxLen s, copyStringFromUser addr maxLen m = some s ↔ s.length < maxLen ∧ 0 ∉ s ∧
      Permitted (vmmCurrentAddressSpace m) addr (s.length + 1) false m ∧
        userBytes addr (s.length + 1) m = s ++ [0]) := by
  have bounded {write : Bool} : Permitted (vmmCurrentAddressSpace m) addr len write m ↔
      addr + len - 1 < 2 ^ 64 ∧ Permitted (vmmCurrentAddressSpace m) addr len write m := by
    constructor
    · intro permitted
      obtain ⟨phys, found⟩ := Option.isSome_iff_exists.mp (permitted (len - 1) (by omega))
      have last := vmmTranslateUserAddr_lt found
      refine ⟨?_, permitted⟩
      unfold userVirtMax at last
      omega
    · exact And.right
  refine ⟨?_, ?_, ?_, ?_⟩
  · intro write
    rw [← bounded]
    exact usercopyValidateRange_iff some_
  · intro real bytes
    rw [← bounded]
    exact copyFromUser_iff some_ real
  · rintro hidden src rfl
    rw [← bounded]
    refine ⟨fun real => (copyToUser_spec hidden real).done, ?_⟩
    by_cases real : addr = 0
    · intro q _
      rw [copyToUser, if_neg (Nat.ne_of_gt some_), if_pos (.inl real)]
    · exact (copyToUser_spec hidden real).other
  · intro real maxLen s
    exact copyStringFromUser_iff small real

/-- Three bytes are copied to a page of the user's, and read back from it as they were before. -/
theorem usercopy_exact_three : ∃ m, vmmCurrentAddressSpace m = 0x2000 ∧
    (copyToUser 0x400123 [1, 2, 3] m).1 = true ∧ copyFromUser 0x400123 3 m = some [0, 0, 0] := by
  have leaf : Built (memoryInit smallMemmap blankMachine) True (fun _ => False) _ := .alloc .start rfl
  obtain ⟨k₁, k₂, m, built, created, taken, ran, current, facts, bytes⟩ : ∃ k₁ k₂ k,
      Built (memoryInit smallMemmap blankMachine) True (fun _ => False) k₁ ∧
      vmmCreateAddressSpace k₁ = .ok (2 * pageSize, k₂) ∧ k₂.pmm.used 1 ∧
      vmmMapPageIn (2 * pageSize) 0x400000 0x1000 (vmmFlagUser ||| vmmFlagWritable) k₂ = .ok (true, k) ∧
      vmmCurrentAddressSpace (vmmSwitchAddressSpace 0x2000 k) = 0x2000 ∧
      (∀ i < 3, (vmmTranslateUserAddr 0x2000 (0x400123 + i) true (vmmSwitchAddressSpace 0x2000 k)).isSome ∧
        (vmmTranslateUserAddr 0x2000 (0x400123 + i) false (vmmSwitchAddressSpace 0x2000 k)).isSome) ∧
      userBytes 0x400123 3 (vmmSwitchAddressSpace 0x2000 k) = [0, 0, 0] :=
    ⟨_, _, _, leaf, rfl, rfl, rfl, rfl, by decide, by decide⟩
  obtain ⟨held, only⟩ :=
    space_single built.since.tables created (by decide) (by decide) (by decide) (fun _ => by decide) ran
  have whole := (built.create created).map (.inr rfl) (by decide) (fun _ => by decide) ran
  have hidden : TablesHidden (2 * pageSize) m := by
    apply whole.since.tables.hidden (.inr rfl)
    intro vp low entry found isTable
    have page : entryPage (pageEntry 0x1000 (vmmFlagUser ||| vmmFlagWritable)) = 1 := by decide
    rw [(only vp low entry found).2] at isTable
    rcases held 1 isTable with free | ⟨_, _, at_, -⟩ | same
    · rw [taken] at free
      cases free
    · exact at_.1
    · cases same
  have sameTables : SameTables 0x2000 m (vmmSwitchAddressSpace 0x2000 m) := by
    intro t _
    unfold vmmSwitchAddressSpace
    split <;> rfl
  obtain ⟨-, fromUser, toUser, -⟩ :=
    @usercopy_exact (vmmSwitchAddressSpace 0x2000 m) 0x400123 3 (by decide) (by decide)
  rw [current] at fromUser toUser
  refine ⟨vmmSwitchAddressSpace 0x2000 m, current, ?_, ?_⟩
  · refine ((toUser (hidden.congr sameTables) [1, 2, 3] rfl).1 (by decide)).mpr ⟨by decide, ?_⟩
    exact fun i low => (facts i low).1
  · refine (fromUser (by decide) [0, 0, 0]).mpr ⟨⟨by decide, ?_⟩, bytes.symm⟩
    exact fun i low => (facts i low).2

/-- An address space that maps a page of data at 0x1ff000 and the page table of both at 0x1fe000. -/
def ownTableMapped : Except Panic Machine := do
  let (cr3Phys, k) ← vmmCreateAddressSpace (memoryInit smallMemmap blankMachine)
  let (_, k) ← vmmMapPageIn cr3Phys 0x1ff000 0x9000 (vmmFlagUser ||| vmmFlagWritable) k
  let (_, k) ← vmmMapPageIn cr3Phys 0x1fe000 0x4000 (vmmFlagUser ||| vmmFlagWritable) k
  return vmmSwitchAddressSpace cr3Phys k

theorem ownTableMapped_built (ran : ownTableMapped = .ok m) :
    ∃ r, Built (memoryInit smallMemmap blankMachine) True (planted (fun _ => False) r) m := by
  obtain ⟨⟨cr3Phys, k₁⟩, created, ran⟩ := bind_eq_ok ran
  obtain ⟨⟨done₂, k₂⟩, data, ran⟩ := bind_eq_ok ran
  obtain ⟨⟨done₃, k₃⟩, table, ran⟩ := bind_eq_ok ran
  cases ran
  obtain ⟨r, -, -, rfl, -⟩ := vmmCreateAddressSpace_ok created
  have one : Built (memoryInit smallMemmap blankMachine) True (planted (fun _ => False) (r * pageSize / pageSize)) k₁ :=
    .create .start created
  rw [Nat.mul_div_cancel r (by decide)] at one
  obtain ⟨rfl, -⟩ := vmmMapPageIn_mapped one.since.tables (.inr rfl) (by decide) (by decide) (by decide)
    (fun _ => by decide) data
  have two := one.map (.inr rfl) (by decide) (fun _ => by decide) data
  obtain ⟨rfl, -⟩ := vmmMapPageIn_mapped two.since.tables (.inr rfl) (by decide) (by decide) (by decide)
    (fun _ => by decide) table
  exact ⟨r, .switch (two.map (.inr rfl) (by decide) (fun _ => by decide) table)⟩

instance (cr3Phys base len : Nat) (write : Bool) (m : Machine) : Decidable (Permitted cr3Phys base len write m) :=
  Nat.decidableBallLT len _

/-- A user whose page table is mapped for writing: a copy takes away the translation of its own last byte. -/
theorem copyToUser_own_table : ∃ m r, Built (memoryInit smallMemmap blankMachine) True
    (planted (fun _ => False) r) m ∧
    vmmCurrentAddressSpace m = 0x1000 ∧ Permitted 0x1000 0x1feff8 9 true m ∧
    (copyToUser 0x1feff8 (List.replicate 9 0) m).1 = false := by
  have facts : ownTableMapped.toOption.map (fun m => decide (vmmCurrentAddressSpace m = 0x1000 ∧
      Permitted 0x1000 0x1feff8 9 true m ∧ (copyToUser 0x1feff8 (List.replicate 9 0) m).1 = false)) = some true := by
    decide +kernel
  obtain ⟨m, ran, outcome⟩ := exists_ok facts
  obtain ⟨current, permitted, refused⟩ := of_decide_eq_true outcome
  obtain ⟨r, built⟩ := ownTableMapped_built ran
  exact ⟨m, r, built, current, permitted, refused⟩

end TangPingOS
