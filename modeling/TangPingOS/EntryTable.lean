import TangPingOS.Exfat.Directory

/-! # The table of a mount

Both parsers of directories enter what they find with `add_exfat_root_entry`. An element that
finds the table full is dropped, so a directory adds its files in order, as many as there is
room for.
-/

namespace TangPingOS

open Lib

/-- The table matters to `add_exfat_root_entry` only when it is full. -/
theorem addExfatRootEntry_room (room : entries.length < maxRootEntries) :
    addExfatRootEntry entries parent name size firstCluster attributes flags =
      addExfatRootEntry [] parent name size firstCluster attributes flags := by
  have empty : ¬maxRootEntries ≤ ([] : List RootEntry).length := by decide
  simp only [addExfatRootEntry, Nat.not_le.mpr room, empty]

/-- As many elements as there is room for, behind what is there already. -/
def fill (entries files : List RootEntry) : List RootEntry :=
  entries ++ files.take (maxRootEntries - entries.length)

theorem fill_nil : fill entries [] = entries := by
  rw [fill, List.take_nil, List.append_nil]

theorem fill_full (full : maxRootEntries ≤ entries.length) : fill entries files = entries := by
  rw [fill, Nat.sub_eq_zero_of_le full, List.take_zero, List.append_nil]

theorem fill_append : fill (fill entries first) second = fill entries (first ++ second) := by
  simp only [fill, List.take_append, List.append_assoc, List.length_append, List.length_take]
  congr 3
  omega

theorem append_addExfatRootEntry :
    entries ++ (addExfatRootEntry entries parent name size firstCluster attributes flags).toList =
      fill entries (addExfatRootEntry [] parent name size firstCluster attributes flags).toList := by
  by_cases room : entries.length < maxRootEntries
  · rw [addExfatRootEntry_room room, fill, List.take_of_length_le]
    cases addExfatRootEntry [] parent name size firstCluster attributes flags with
    | none => exact Nat.zero_le _
    | some _ => exact Nat.succ_le_of_lt (Nat.sub_pos_of_lt room)
  · have full := Nat.not_lt.mp room
    rw [fill_full full, addExfatRootEntry, if_pos (.inl full)]
    exact List.append_nil _

/-- What holds of the table still does after a file of the directory has been entered. -/
def KeptBy (parent : Bytes) (P : List RootEntry → Prop) : Prop :=
  ∀ {entries name size firstCluster attributes flags e}, P entries →
    addExfatRootEntry entries parent name size firstCluster attributes flags = some e → P (entries ++ [e])

theorem KeptBy.add (kept : KeptBy parent P)
    (holds : P entries) (name : Bytes) (size firstCluster attributes flags : Nat) :
    P (entries ++ (addExfatRootEntry entries parent name size firstCluster attributes flags).toList) := by
  cases added : addExfatRootEntry entries parent name size firstCluster attributes flags with
  | none => simpa using holds
  | some e => exact kept holds added

/-- What is among the first `n` elements that pass a filter: something with less than `n` of them in front
    of it. -/
theorem exists_mem_take_filterMap {α β : Type} {f} {P : β → Prop} {l : List α} :
    (∃ b ∈ (l.filterMap f).take n, P b) ↔
      ∃ before a after, l = before ++ a :: after ∧ (before.filterMap f).length < n ∧
        ∃ b, f a = some b ∧ P b := by
  constructor
  · rintro ⟨b, member, holds⟩
    induction l generalizing n with
    | nil => simp at member
    | cons x l ih =>
      cases kept : f x with
      | none =>
        rw [List.filterMap_cons_none kept] at member
        obtain ⟨before, a, after, rfl, few, found⟩ := ih member
        refine ⟨x :: before, a, after, rfl, ?_, found⟩
        rw [List.filterMap_cons_none kept]
        exact few
      | some y =>
        rw [List.filterMap_cons_some kept] at member
        cases n with
        | zero => simp at member
        | succ n =>
          rw [List.take_succ_cons, List.mem_cons] at member
          rcases member with rfl | later
          · exact ⟨[], x, l, rfl, Nat.succ_pos n, b, kept, holds⟩
          · obtain ⟨before, a, after, rfl, few, found⟩ := ih later
            refine ⟨x :: before, a, after, rfl, ?_, found⟩
            rw [List.filterMap_cons_some kept]
            exact Nat.succ_lt_succ few
  · rintro ⟨before, a, after, rfl, few, b, kept, holds⟩
    refine ⟨b, ?_, holds⟩
    obtain ⟨k, isSucc⟩ : ∃ k, n - (before.filterMap f).length = k + 1 :=
      ⟨n - (before.filterMap f).length - 1, by omega⟩
    rw [List.filterMap_append, List.filterMap_cons_some kept, List.take_append, isSucc]
    exact List.mem_append_right _ List.mem_cons_self

end TangPingOS
