import Mathlib

/-! # Windows on a sequence

A stretch of an infinite sequence as a list: windows that touch are one window, a concatenation
of pieces of one length is a window, and reading window after window is reading one window.
-/

namespace TangPingOS.Lib

variable {α : Type} (seq : Nat → α)

/-- `len` elements of a sequence from `start` on. -/
def window (start len : Nat) : List α := (List.range len).map fun i => seq (start + i)

@[simp] theorem length_window : (window seq start len).length = len := by
  simp [window]

@[simp] theorem window_zero : window seq start 0 = [] := rfl

theorem window_append : window seq start a ++ window seq (start + a) b = window seq start (a + b) := by
  simp only [window, List.range_add, List.map_append, List.map_map]
  congr 1
  apply List.map_congr_left
  intro i _
  rw [Function.comp_apply, Nat.add_assoc]

theorem window_congr {seq seq' : Nat → α} {start start' len : Nat}
    (same : ∀ i < len, seq (start + i) = seq' (start' + i)) :
    window seq start len = window seq' start' len :=
  List.map_congr_left fun i inside => same i (List.mem_range.mp inside)

theorem window_getD (a : α) : window (fun i => l.getD i a) 0 l.length = l := by
  apply List.ext_getElem (length_window _)
  intro i _ inside
  simp only [window, List.getElem_map, List.getElem_range, Nat.zero_add]
  rw [List.getD_eq_getElem?_getD, List.getElem?_eq_getElem inside, Option.getD_some]

theorem window_eq_take_drop {l : List α} (same : ∀ i < l.length, seq i = l.getD i a) :
    window seq start (min len (l.length - start)) = (l.drop start).take len := by
  apply List.ext_getElem
  · simp
  · intro i inside _
    rw [length_window] at inside
    have held : start + i < l.length := by omega
    simp only [window, List.getElem_map, List.getElem_range, List.getElem_take, List.getElem_drop]
    rw [same _ held, List.getD_eq_getElem?_getD, List.getElem?_eq_getElem held, Option.getD_some]

theorem take_drop_window (inside : skip + count ≤ len) :
    ((window seq start len).drop skip).take count = window seq (start + skip) count := by
  have split : window seq start len =
      window seq start skip ++ (window seq (start + skip) count ++
        window seq (start + skip + count) (len - (skip + count))) := by
    rw [window_append, window_append]
    congr 1
    omega
  rw [split, List.drop_left' (length_window seq),
    List.take_left' (length_window seq)]

/-- Pieces of `size` elements in a row. -/
theorem flatMap_window (piece : Nat → List α) (count : Nat)
    (pieces : ∀ i < count, piece i = window seq (start + i * size) size) :
    (List.range count).flatMap piece = window seq start (count * size) := by
  induction count with
  | zero => simp
  | succ count ih =>
    rw [List.range_succ, List.flatMap_append, ih fun i inside => pieces i (Nat.lt_succ_of_lt inside),
      List.flatMap_singleton, pieces count (Nat.lt_succ_self count), Nat.succ_mul, ← window_append]

/-- A loop that copies some of the window in every round and stops when it has all of it. -/
theorem loop_window {β : Type} {run : Nat → List α → β} (finish : List α → β)
    (stops : ∀ fuel out, want ≤ out.length → run fuel out = finish out)
    (round : ∀ fuel out, out.length < want → ∃ k, 0 < k ∧ out.length + k ≤ want ∧
      run (fuel + 1) out = run fuel (out ++ window seq (start + out.length) k))
    (enough : want ≤ fuel) : run fuel [] = finish (window seq start want) := by
  have runs : ∀ fuel len, len ≤ want → want ≤ len + fuel →
      run fuel (window seq start len) = finish (window seq start want) := by
    intro fuel
    induction fuel with
    | zero =>
      intro len inside enough
      have whole : len = want := by omega
      rw [whole, stops 0 _ (by simp)]
    | succ fuel ih =>
      intro len inside enough
      by_cases more : len < want
      · obtain ⟨k, some, fits, ran⟩ := round fuel (window seq start len) (by simpa using more)
        rw [length_window] at fits ran
        rw [ran, window_append]
        exact ih (len + k) fits (by omega)
      · have whole : len = want := by omega
        rw [whole, stops (fuel + 1) _ (by simp)]
  exact runs fuel 0 (Nat.zero_le _) (by omega)

/-- Read after read, each from where the last one was to end; the pieces put together. -/
def readPieces (read : Nat → Nat → Option (List α)) : Nat → List Nat → Option (List α)
  | _, [] => some []
  | offset, n :: rest =>
    (read offset n).bind fun piece => (readPieces read (offset + n) rest).map (piece ++ ·)

/-- A reader that yields the window it is asked for, as far as the sequence goes, yields the same
    in pieces. -/
theorem readPieces_eq {read : Nat → Nat → Option (List α)}
    (reads : ∀ offset n, read offset n = some (window seq offset (min n (size - offset))))
    (offset : Nat) (pieces : List Nat) :
    readPieces read offset pieces = read offset pieces.sum := by
  induction pieces generalizing offset with
  | nil =>
    rw [readPieces, reads, List.sum_nil, Nat.zero_min, window_zero]
  | cons n rest ih =>
    rw [readPieces, ih, reads, reads, reads, Option.bind_some, Option.map_some, List.sum_cons]
    congr 1
    by_cases inside : n ≤ size - offset
    · rw [Nat.min_eq_left inside, window_append]
      congr 1
      omega
    · have nothing : min rest.sum (size - (offset + n)) = 0 := by omega
      rw [nothing, window_zero, List.append_nil]
      congr 1
      omega

end TangPingOS.Lib
