import Mathlib.Data.Nat.Find

/-! # Rows of marked elements

A scan of a sequence that counts how many marked elements end where it stands finds the first
`len` of them in a row.
-/

namespace TangPingOS.Lib

variable (mark : Nat → Bool) (len : Nat)

/-- `len` marked elements in a row from `g` on. -/
def RowAt (g : Nat) : Prop := ∀ k < len, mark (g + k)

instance (g : Nat) : Decidable (RowAt mark len g) :=
  inferInstanceAs (Decidable (∀ k < len, mark (g + k)))

/-- The first place with `len` marked elements in a row. -/
structure FirstRow (g : Nat) : Prop where
  row : RowAt mark len g
  first : ∀ h < g, ¬RowAt mark len h

/-- The scan after `n` elements: the last `run` are marked, and no row has been complete. -/
structure Counting (n run : Nat) : Prop where
  short : run < len
  back : run ≤ n
  row : RowAt mark run (n - run)
  stopped : run = n ∨ mark (n - run - 1) = false
  none : ∀ h, h + len ≤ n → ¬RowAt mark len h

variable {mark len}

theorem FirstRow.unique (one : FirstRow mark len g) (other : FirstRow mark len h) : g = h := by
  apply Nat.le_antisymm
  · exact Nat.not_lt.mp fun below => one.first h below other.row
  · exact Nat.not_lt.mp fun below => other.first g below one.row

theorem exists_firstRow (row : RowAt mark len g) : ∃ h, FirstRow mark len h := by
  have rows : ∃ h, RowAt mark len h := ⟨g, row⟩
  exact ⟨Nat.find rows, Nat.find_spec rows, fun h below => Nat.find_min rows below⟩

namespace Counting

theorem start (positive : 0 < len) : Counting mark len 0 0 :=
  ⟨positive, Nat.le_refl 0, fun k low => absurd low (Nat.not_lt_zero k), .inl rfl, fun h low => by omega⟩

variable {n run : Nat} (counting : Counting mark len n run)

include counting

theorem longer (marked : mark n) : RowAt mark (run + 1) (n - run) := by
  have back := counting.back
  intro k low
  by_cases last : k = run
  · rw [last, Nat.sub_add_cancel back]
    exact marked
  · exact counting.row k (by omega)

theorem complete (marked : mark n) (enough : run + 1 = len) : FirstRow mark len (n - run) := by
  refine ⟨enough ▸ counting.longer marked, fun h below => counting.none h ?_⟩
  omega

theorem marked (isMarked : mark n) (few : run + 1 < len) : Counting mark len (n + 1) (run + 1) := by
  have back := counting.back
  have begins : n + 1 - (run + 1) = n - run := by omega
  refine ⟨few, by omega, begins ▸ counting.longer isMarked, ?_, fun h ends row => ?_⟩
  · rw [begins]
    exact counting.stopped.imp (by omega) id
  · by_cases before : h + len ≤ n
    · exact counting.none h before row
    · -- the row would reach back over the element in front of the ones that are counted
      obtain whole | gap := counting.stopped
      · omega
      · have inside := row (n - run - 1 - h) (by omega)
        have place : h + (n - run - 1 - h) = n - run - 1 := by omega
        rw [place, gap] at inside
        cases inside

theorem unmarked (isUnmarked : mark n = false) : Counting mark len (n + 1) 0 := by
  have short := counting.short
  refine ⟨by omega, Nat.zero_le _, fun k low => absurd low (Nat.not_lt_zero k), .inr isUnmarked,
    fun h ends row => ?_⟩
  by_cases before : h + len ≤ n
  · exact counting.none h before row
  · have inside := row (n - h) (by omega)
    have place : h + (n - h) = n := by omega
    rw [place, isUnmarked] at inside
    cases inside

end Counting

end TangPingOS.Lib
