import Mathlib.Data.Finset.Card
import Mathlib.Data.Finset.Range

/-! # Walks along partial links

`steps next n a` is the cell reached from `a` by `n` links. A walk that comes to an end never
meets a cell twice, so it is no longer than there are cells.
-/

namespace TangPingOS.Lib

variable {α : Type} (next : α → Option α)

def steps : Nat → α → Option α
  | 0, a => some a
  | n + 1, a => (next a).bind (steps n)

theorem steps_add (a : α) : steps next (m + n) a = (steps next m a).bind (steps next n) := by
  induction m generalizing a with
  | zero => rw [Nat.zero_add, steps, Option.bind_some]
  | succ m ih =>
    rw [Nat.succ_add, steps, steps, Option.bind_assoc]
    congr 1
    funext b
    exact ih b

variable {next}

theorem steps_isSome (reached : steps next n a = some b) (below : k ≤ n) : ∃ c, steps next k a = some c := by
  obtain ⟨rest, rfl⟩ := Nat.exists_eq_add_of_le below
  rw [steps_add] at reached
  obtain ⟨c, found, -⟩ := Option.bind_eq_some_iff.mp reached
  exact ⟨c, found⟩

theorem steps_of_repeated (less : i < j) (here : steps next i a = some b)
    (again : steps next j a = some b) (n : Nat) : ∃ c, steps next n a = some c := by
  induction n using Nat.strongRecOn with
  | _ n ih =>
    by_cases low : n ≤ j
    · exact steps_isSome again low
    · obtain ⟨rest, rfl⟩ := Nat.exists_eq_add_of_le (Nat.le_of_not_le low)
      obtain ⟨c, earlier⟩ := ih (i + rest) (by omega)
      refine ⟨c, ?_⟩
      rw [steps_add, again, ← here, ← steps_add]
      exact earlier

theorem steps_distinct (ends : steps next stop a = none)
    (here : steps next i a = some b) (there : steps next j a = some b) : i = j := by
  have never {i j : Nat} (less : i < j) (here : steps next i a = some b)
      (again : steps next j a = some b) : False := by
    obtain ⟨c, found⟩ := steps_of_repeated less here again stop
    rw [ends] at found
    cases found
  obtain less | equal | more := Nat.lt_trichotomy i j
  · exact (never less here there).elim
  · exact equal
  · exact (never more there here).elim

/-- A walk that meets no cell twice is no longer than there are cells. -/
theorem steps_lt_card {cells : Finset α} {a : α}
    (distinct : ∀ i j b, steps next i a = some b → steps next j a = some b → i = j)
    (inside : ∀ n b, steps next n a = some b → b ∈ cells) {n : Nat} {b : α}
    (reached : steps next n a = some b) : n < cells.card := by
  have all : ∀ k ∈ Finset.range (n + 1), ∃ c, steps next k a = some c := fun k low =>
    steps_isSome reached (Nat.lt_succ_iff.mp (Finset.mem_range.mp low))
  have : Nonempty α := ⟨a⟩
  choose! cell met using all
  have maps : ∀ k ∈ Finset.range (n + 1), cell k ∈ cells := fun k low => inside k _ (met k low)
  have injective : ∀ k ∈ Finset.range (n + 1), ∀ l ∈ Finset.range (n + 1), cell k = cell l → k = l :=
    fun k lowK l lowL same => distinct k l _ (met k lowK) (same ▸ met l lowL)
  have counted := Finset.card_le_card_of_injOn cell maps injective
  rwa [Finset.card_range] at counted

end TangPingOS.Lib
