import Mathlib

/-! # Rings with cycle bits

A ring of cells between a producer and a consumer that share no index. Each cell carries a
bit, and each side knows the bit of its current round: a cell has been written when its bit
is that of the consumer's round. Between the two sides lies a list, to which writing appends
and from which reading takes the front.
-/

namespace TangPingOS.Lib

/-- A side's place in the ring. -/
structure RingPlace where
  index : Nat
  cycle : Bool
  deriving DecidableEq, Repr

namespace RingPlace

def next (size : Nat) (p : RingPlace) : RingPlace :=
  if p.index + 1 < size then { p with index := p.index + 1 } else { index := 0, cycle := !p.cycle }

def ahead (size : Nat) (p : RingPlace) : Nat → RingPlace
  | 0 => p
  | i + 1 => (p.ahead size i).next size

variable {size : Nat} {p : RingPlace}

theorem ahead_eq (inside : p.index < size) (within : i ≤ size) :
    p.ahead size i = if p.index + i < size then { p with index := p.index + i }
      else { index := p.index + i - size, cycle := !p.cycle } := by
  induction i with
  | zero => exact (if_pos inside).symm
  | succ i ih =>
    rw [ahead, ih (by omega), next]
    by_cases here : p.index + i < size
    · rw [if_pos here]
      by_cases last : p.index + i + 1 < size
      · rw [if_pos last, if_pos (by omega), Nat.add_assoc]
      · rw [if_neg last, if_neg (by omega), show p.index + (i + 1) - size = 0 by omega]
    · rw [if_neg here, if_pos (show p.index + i - size + 1 < size by omega), if_neg (by omega),
        show p.index + i - size + 1 = p.index + (i + 1) - size by omega]

theorem ahead_next : (p.next size).ahead size i = p.ahead size (i + 1) := by
  induction i with
  | zero => rfl
  | succ i ih => exact congrArg (next size) ih

theorem ahead_inside (inside : p.index < size) (within : i ≤ size) : (p.ahead size i).index < size := by
  rw [ahead_eq inside within]
  split
  · assumption
  · simp only
    omega

theorem next_inside (inside : p.index < size) : (p.next size).index < size :=
  ahead_inside inside (i := 1) (by omega)

theorem next_ne (large : 1 < size) : p.next size ≠ p := by
  intro same
  have index := congrArg RingPlace.index same
  unfold next at index
  split at index <;> simp only at index <;> omega

theorem ahead_apart (inside : p.index < size) (less : i < j) (within : j < size) :
    (p.ahead size i).index ≠ (p.ahead size j).index := by
  rw [ahead_eq inside (by omega), ahead_eq inside (by omega)]
  split <;> split <;> simp only <;> omega

theorem ahead_round (inside : p.index < size) : p.ahead size size = { p with cycle := !p.cycle } := by
  rw [ahead_eq inside (Nat.le_refl _), if_neg (by omega), Nat.add_sub_cancel]

end RingPlace

/-- What the producer has written and the consumer, at this place, has not read. -/
structure Unread {α : Type} (bit : α → Bool) (size : Nat) (cells : Nat → α) (p : RingPlace) (items : List α) : Prop where
  inside : p.index < size
  room : items.length < size
  written : ∀ i x, items[i]? = some x →
    cells (p.ahead size i).index = x ∧ bit x = (p.ahead size i).cycle
  free : ∀ i, items.length ≤ i → i < size → bit (cells (p.ahead size i).index) ≠ (p.ahead size i).cycle

namespace Unread

variable {α : Type} {bit : α → Bool} {size : Nat} {cells : Nat → α} {p : RingPlace} {x : α} {items : List α}

theorem nothing (unread : Unread bit size cells p []) : bit (cells p.index) ≠ p.cycle :=
  unread.free 0 (Nat.le_refl _) unread.room

theorem front (unread : Unread bit size cells p (x :: items)) : cells p.index = x ∧ bit x = p.cycle :=
  unread.written 0 x rfl

theorem pop (unread : Unread bit size cells p (x :: items)) : Unread bit size cells (p.next size) items := by
  have room := unread.room
  rw [List.length_cons] at room
  refine ⟨RingPlace.next_inside unread.inside, by omega, ?_, ?_⟩
  · intro i y found
    rw [RingPlace.ahead_next]
    exact unread.written (i + 1) y found
  · intro i later within
    rw [RingPlace.ahead_next]
    by_cases last : i + 1 < size
    · exact unread.free (i + 1) (Nat.succ_le_succ later) last
    · -- the cell just read, as the next round will find it
      obtain ⟨held, same⟩ := unread.front
      rw [show i + 1 = size by omega, RingPlace.ahead_round unread.inside, held, same]
      simp

theorem push (unread : Unread bit size cells p items) (room : items.length + 1 < size)
    (same : bit x = (p.ahead size items.length).cycle) :
    Unread bit size (Function.update cells (p.ahead size items.length).index x) p (items ++ [x]) := by
  refine ⟨unread.inside, by rw [List.length_append]; exact room, ?_, ?_⟩
  · intro i y found
    rcases Nat.lt_trichotomy i items.length with old | new | beyond
    · rw [List.getElem?_append_left old] at found
      rw [Function.update_of_ne (RingPlace.ahead_apart unread.inside old (by omega))]
      exact unread.written i y found
    · subst new
      rw [List.getElem?_concat_length] at found
      cases found
      exact ⟨Function.update_self _ _ _, same⟩
    · rw [List.getElem?_eq_none (by rw [List.length_append, List.length_singleton]; omega)] at found
      cases found
  · intro i later within
    rw [List.length_append, List.length_singleton] at later
    rw [Function.update_of_ne (RingPlace.ahead_apart unread.inside (by omega) within).symm]
    exact unread.free i (by omega) within

theorem full (unread : Unread bit size cells p items) (last : items.length + 1 = size) :
    ((p.ahead size items.length).next size).index = p.index := by
  have round : (p.ahead size items.length).next size = p.ahead size size := by
    rw [← last]
    rfl
  rw [round, RingPlace.ahead_round unread.inside]

end Unread

end TangPingOS.Lib
