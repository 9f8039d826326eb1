import Mathlib

/-! # 64-bit words

Words are naturals. Arithmetic that can leave 64 bits is reduced explicitly; bit
fields are read and set with the bitwise operations, and the rules below say how
a field of low bits and a field of high bits keep out of each other's way.
-/

namespace TangPingOS.Lib

/-- The largest 64-bit value, by which several functions report failure. -/
def u64Max : Nat := 2 ^ 64 - 1

def wrap64 (n : Nat) : Nat := n % 2 ^ 64

/-- `align_up`, for an alignment that is a power of two. -/
def alignUp (value align : Nat) : Nat := wrap64 (value + align - 1) / align * align

def alignDown (value align : Nat) : Nat := value / align * align

def anyBit (w mask : Nat) : Bool := w &&& mask != 0

theorem anyBit_or : anyBit (a ||| b) mask = (anyBit a mask || anyBit b mask) := by
  rw [anyBit, anyBit, anyBit, Nat.and_or_distrib_right, Bool.eq_iff_iff]
  simp only [bne_iff_ne, ne_eq, Bool.or_eq_true, Nat.or_eq_zero_iff]
  omega

/-- A field that starts at bit `low` and is `width` bits long. -/
theorem mul_and_field (low : Nat) (small : x < 2 ^ width) :
    x * 2 ^ low &&& (2 ^ width - 1) * 2 ^ low = x * 2 ^ low := by
  apply Nat.eq_of_testBit_eq
  intro j
  rw [Nat.testBit_and, Nat.testBit_mul_two_pow, Nat.testBit_mul_two_pow]
  by_cases inside : j - low < width
  · cases decide (low ≤ j) <;> simp [inside]
  · have wide : 2 ^ width ≤ 2 ^ (j - low) := Nat.pow_le_pow_right (by decide) (Nat.not_lt.mp inside)
    have clear : x.testBit (j - low) = false := Nat.testBit_lt_two_pow (small.trans_le wide)
    simp [clear]

theorem mul_and_low (below : bit < low) : x * 2 ^ low &&& 2 ^ bit = 0 := by
  rw [Nat.and_two_pow, Nat.testBit_mul_two_pow]
  simp [Nat.not_le.mpr below]

/-- The number with its digit `k` replaced. -/
def putDigit (base w k digit : Nat) : Nat :=
  w % base ^ k + (digit + w / base ^ (k + 1) * base) * base ^ k

section Digits

variable {base w k j digit : Nat} (small : digit < base)

include small

theorem putDigit_div : putDigit base w k digit / base ^ k = digit + w / base ^ (k + 1) * base := by
  have positive : 0 < base ^ k := Nat.pow_pos (Nat.zero_lt_of_lt small)
  rw [putDigit, Nat.add_mul_div_right _ _ positive, Nat.div_eq_of_lt (Nat.mod_lt _ positive), Nat.zero_add]

theorem putDigit_self : putDigit base w k digit / base ^ k % base = digit := by
  rw [putDigit_div small, Nat.add_mul_mod_self_right, Nat.mod_eq_of_lt small]

theorem putDigit_other (other : j ≠ k) : putDigit base w k digit / base ^ j % base = w / base ^ j % base := by
  rcases Nat.lt_or_gt_of_ne other with below | above
  · -- the number is the same up to digit `k`
    have divides : base ^ (j + 1) ∣ base ^ k := Nat.pow_dvd_pow base below
    have same : putDigit base w k digit % base ^ (j + 1) = w % base ^ (j + 1) := by
      obtain ⟨rest, whole⟩ := divides
      rw [putDigit, whole, Nat.mul_comm _ rest, ← Nat.mul_assoc, Nat.add_mul_mod_self_right, Nat.mul_comm rest,
        Nat.mod_mul_right_mod]
    rw [← Nat.mod_mul_right_div_self, ← Nat.mod_mul_right_div_self, ← Nat.pow_succ, same]
  · -- and the same from the next digit on
    obtain ⟨more, rfl⟩ := Nat.exists_eq_add_of_le (Nat.succ_le_of_lt above)
    have same : putDigit base w k digit / base ^ (k + 1) = w / base ^ (k + 1) := by
      rw [Nat.pow_succ, ← Nat.div_div_eq_div_mul, putDigit_div small, ← Nat.pow_succ,
        Nat.add_mul_div_right _ _ (Nat.zero_lt_of_lt small), Nat.div_eq_of_lt small, Nat.zero_add]
    rw [Nat.pow_add, ← Nat.div_div_eq_div_mul, ← Nat.div_div_eq_div_mul, same]

end Digits

end TangPingOS.Lib
