import Mathlib

/-! # Ring buffers

A buffer of fixed size that is written at one position and read at another, both of which
go round. It is empty when the positions are equal, so one cell always stays unused. What
is in it is a list, to which writing appends and from which reading takes the front.
-/

namespace TangPingOS.Lib

structure Ring (α : Type) (size : Nat) where
  buffer : Nat → α
  readPos : Nat
  writePos : Nat
  read_lt : readPos < size
  write_lt : writePos < size

namespace Ring

variable {α : Type} {size : Nat}

def next (_ : Ring α size) (pos : Nat) : Nat := (pos + 1) % size

theorem next_lt (r : Ring α size) : r.next pos < size :=
  Nat.mod_lt _ (Nat.zero_lt_of_lt r.read_lt)

def push (a : α) (r : Ring α size) : Ring α size :=
  if r.next r.writePos = r.readPos then r
  else
    { r with
      buffer := Function.update r.buffer r.writePos a
      writePos := r.next r.writePos
      write_lt := r.next_lt }

def advance (r : Ring α size) : Ring α size :=
  { r with readPos := r.next r.readPos, read_lt := r.next_lt }

/-- Read up to `len` elements. -/
def read : Nat → Ring α size → List α × Ring α size
  | 0, r => ([], r)
  | len + 1, r =>
    if r.readPos = r.writePos then ([], r)
    else
      let (rest, r') := read len r.advance
      (r.buffer r.readPos :: rest, r')

def count (r : Ring α size) : Nat := (r.writePos + size - r.readPos) % size

def contents (r : Ring α size) : List α :=
  (List.range r.count).map fun i => r.buffer ((r.readPos + i) % size)

@[simp] theorem length_contents (r : Ring α size) : r.contents.length = r.count := by
  simp [contents]

/-! ## Positions without remainders -/

theorem mod_once (small : n < 2 * size) : n % size = if n < size then n else n - size := by
  split
  · rename_i low
    exact Nat.mod_eq_of_lt low
  · rename_i high
    rw [Nat.mod_eq_sub_mod (Nat.le_of_not_lt high), Nat.mod_eq_of_lt (by omega)]

theorem next_eq {r : Ring α size} (low : pos < size) : r.next pos = if pos + 1 < size then pos + 1 else 0 := by
  unfold next
  rw [mod_once (by omega)]
  split <;> omega

theorem count_eq (r : Ring α size) :
    r.count = if r.readPos ≤ r.writePos then r.writePos - r.readPos
      else r.writePos + size - r.readPos := by
  have := r.write_lt
  unfold count
  rw [mod_once (by omega)]
  split <;> split <;> omega

theorem count_lt (r : Ring α size) : r.count < size :=
  Nat.mod_lt _ (Nat.zero_lt_of_lt r.read_lt)

theorem empty_iff (r : Ring α size) : r.readPos = r.writePos ↔ r.contents = [] := by
  have := r.read_lt
  rw [← List.length_eq_zero_iff, length_contents, count_eq]
  split <;> omega

theorem full_iff (r : Ring α size) : r.next r.writePos = r.readPos ↔ r.count = size - 1 := by
  have := r.read_lt
  have := r.write_lt
  rw [next_eq r.write_lt, count_eq]
  split <;> split <;> omega

theorem push_full {r : Ring α size} (full : r.count = size - 1) : r.push a = r :=
  if_pos (r.full_iff.mpr full)

theorem contents_push {r : Ring α size} (room : r.count ≠ size - 1) : (r.push a).contents = r.contents ++ [a] := by
  have low := r.read_lt
  have high := r.write_lt
  have free : ¬r.next r.writePos = r.readPos := fun full => room (r.full_iff.mp full)
  have written : r.push a = { r with
      buffer := Function.update r.buffer r.writePos a
      writePos := r.next r.writePos
      write_lt := r.next_lt } := if_neg free
  have more : (r.push a).count = r.count + 1 := by
    have front : (r.push a).readPos = r.readPos := by rw [written]
    have back : (r.push a).writePos = r.next r.writePos := by rw [written]
    rw [count_eq, count_eq, back]
    rw [next_eq high] at free ⊢
    by_cases last : r.writePos + 1 < size
    · rw [if_pos last] at free ⊢
      split <;> split <;> omega
    · rw [if_neg last] at free ⊢
      split <;> split <;> omega
  unfold contents
  rw [more, List.range_succ, List.map_append]
  congr 1
  · apply List.map_congr_left
    intro i inside
    -- The cell that is written lies behind the elements.
    have apart : (r.readPos + i) % size ≠ r.writePos := by
      have low_i := List.mem_range.mp inside
      have few := r.count_lt
      rw [mod_once (by omega)]
      rw [count_eq] at low_i
      split at low_i <;> split <;> omega
    rw [written]
    exact Function.update_of_ne apart _ _
  · have cell : (r.readPos + r.count) % size = r.writePos := by
      rw [mod_once (by have := r.count_lt; omega), count_eq]
      split <;> split <;> omega
    rw [written]
    show [Function.update r.buffer r.writePos a ((r.readPos + r.count) % size)] = [a]
    rw [cell, Function.update_self]

theorem contents_advance {r : Ring α size} (some_ : r.readPos ≠ r.writePos) :
    r.contents = r.buffer r.readPos :: r.advance.contents := by
  have low := r.read_lt
  have high := r.write_lt
  have fewer : r.count = r.advance.count + 1 := by
    have front : r.advance.readPos = r.next r.readPos := rfl
    have back : r.advance.writePos = r.writePos := rfl
    rw [count_eq, count_eq, front, next_eq low]
    by_cases last : r.readPos + 1 < size
    · split <;> split <;> omega
    · split <;> split <;> omega
  unfold contents
  rw [fewer, List.range_succ_eq_map, List.map_cons, List.map_map, Nat.add_zero, Nat.mod_eq_of_lt low]
  congr 1
  apply List.map_congr_left
  intro i _
  show r.buffer ((r.readPos + (i + 1)) % size) = r.buffer (((r.readPos + 1) % size + i) % size)
  rw [Nat.mod_add_mod, Nat.add_assoc, Nat.add_comm 1 i]

theorem read_spec (len : Nat) (r : Ring α size) :
    (r.read len).1 = r.contents.take len ∧ (r.read len).2.contents = r.contents.drop len := by
  induction len generalizing r with
  | zero => exact ⟨rfl, rfl⟩
  | succ len ih =>
    unfold read
    by_cases none : r.readPos = r.writePos
    · have empty := r.empty_iff.mp none
      simp [none, empty]
    · rw [if_neg none, contents_advance none]
      exact ⟨congrArg _ (ih r.advance).1, (ih r.advance).2⟩

end Ring

end TangPingOS.Lib
