import Mathlib

/-! # Fixed-size byte buffers

A buffer carries its length in its type, so a stray offset can never name a
byte. Reads outside the buffer yield zero and writes outside it are dropped;
the code under verification guards every access, and the frame rules below are
what its proofs use. Little-endian fields are read and written at an offset.
-/

namespace TangPingOS.Lib

variable {bytes : Bytes} {bit i j m off off' : Nat} {a b v value : UInt8}

abbrev Bytes := List UInt8

/-- Exactly `n` bytes. -/
@[ext] structure Buf (n : Nat) where
  byte : Fin n → UInt8

namespace Buf

variable {n : Nat}

def zero : Buf n := ⟨fun _ => 0⟩

def get (b : Buf n) (i : Nat) : UInt8 :=
  if inside : i < n then b.byte ⟨i, inside⟩ else 0

/-- Copy `bytes` over the buffer from offset `off` on. -/
def write (b : Buf n) (off : Nat) (bytes : Bytes) : Buf n :=
  ⟨fun i => if off ≤ i ∧ i < off + bytes.length then bytes.getD (i - off) 0 else b.byte i⟩

def set (b : Buf n) (i : Nat) (v : UInt8) : Buf n := b.write i [v]

def slice (b : Buf n) (off len : Nat) : Bytes :=
  (List.range len).map fun i => b.get (off + i)

@[simp] theorem get_zero : (zero : Buf n).get i = 0 := by
  simp [get, zero]

theorem get_write (b : Buf n) :
    (b.write off bytes).get i =
      if i < n ∧ off ≤ i ∧ i < off + bytes.length then bytes.getD (i - off) 0 else b.get i := by
  by_cases inside : i < n
  · simp [get, write, inside]
  · simp [get, inside]

variable {b : Buf n}

theorem get_write_inside (inside : off + i < n) (covered : i < bytes.length) :
    (b.write off bytes).get (off + i) = bytes.getD i 0 := by
  rw [get_write, if_pos ⟨inside, by omega, by omega⟩]
  congr 1
  omega

theorem get_write_outside (outside : i < off ∨ off + bytes.length ≤ i) : (b.write off bytes).get i = b.get i := by
  rw [get_write, if_neg (by omega)]

theorem get_set (b : Buf n) : (b.set i v).get j = if j < n ∧ j = i then v else b.get j := by
  rw [set, get_write]
  by_cases same : j = i
  · subst same
    by_cases inside : j < n <;> simp [inside]
  · rw [if_neg (by simp only [List.length_singleton]; omega), if_neg (by omega)]

theorem get_set_self (inside : i < n) : (b.set i v).get i = v := by
  rw [get_set, if_pos ⟨inside, rfl⟩]

theorem get_set_other (other : j ≠ i) : (b.set i v).get j = b.get j := by
  rw [get_set, if_neg (by omega)]

theorem ext_get {a b : Buf n} (same : ∀ i < n, a.get i = b.get i) : a = b := by
  ext i
  have h := same i i.isLt
  simpa [get, i.isLt] using congrArg UInt8.toNat h

@[simp] theorem length_slice : (b.slice off len).length = len := by
  simp [slice]

theorem getD_slice (inside : i < len) : (b.slice off len).getD i 0 = b.get (off + i) := by
  simp [slice, inside]

theorem drop_slice (b : Buf n) : (b.slice off len).drop k = b.slice (off + k) (len - k) := by
  apply List.ext_getElem (by simp)
  intro i left right
  simp [slice, Nat.add_assoc]

theorem take_slice (b : Buf n) : (b.slice off len).take k = b.slice off (min k len) := by
  apply List.ext_getElem (by simp)
  intro i left right
  simp [slice]

end Buf

def le16 (v : Nat) : Bytes := [UInt8.ofNat v, UInt8.ofNat (v / 2 ^ 8)]

def le32 (v : Nat) : Bytes :=
  [UInt8.ofNat v, UInt8.ofNat (v / 2 ^ 8), UInt8.ofNat (v / 2 ^ 16), UInt8.ofNat (v / 2 ^ 24)]

def le64 (v : Nat) : Bytes := le32 (v % 2 ^ 32) ++ le32 (v / 2 ^ 32 % 2 ^ 32)

@[simp] theorem length_le16 (v : Nat) : (le16 v).length = 2 := rfl

@[simp] theorem length_le32 (v : Nat) : (le32 v).length = 4 := rfl

@[simp] theorem length_le64 (v : Nat) : (le64 v).length = 8 := rfl

namespace Buf

variable {n : Nat} {b : Buf n}

def readLe16 (b : Buf n) (off : Nat) : Nat :=
  (b.get off).toNat + (b.get (off + 1)).toNat * 2 ^ 8

def readLe32 (b : Buf n) (off : Nat) : Nat :=
  (b.get off).toNat + (b.get (off + 1)).toNat * 2 ^ 8 +
    (b.get (off + 2)).toNat * 2 ^ 16 + (b.get (off + 3)).toNat * 2 ^ 24

def readLe64 (b : Buf n) (off : Nat) : Nat :=
  b.readLe32 off + b.readLe32 (off + 4) * 2 ^ 32

theorem readLe16_congr {a : Buf n} {b : Buf m}
    (same : ∀ i < 2, a.get (off + i) = b.get (off' + i)) : a.readLe16 off = b.readLe16 off' := by
  have h0 := same 0 (by omega)
  have h1 := same 1 (by omega)
  simp only [Nat.add_zero] at h0
  simp only [readLe16, h0, h1]

theorem readLe32_congr {a : Buf n} {b : Buf m}
    (same : ∀ i < 4, a.get (off + i) = b.get (off' + i)) : a.readLe32 off = b.readLe32 off' := by
  have h0 := same 0 (by omega)
  have h1 := same 1 (by omega)
  have h2 := same 2 (by omega)
  have h3 := same 3 (by omega)
  simp only [Nat.add_zero] at h0
  simp only [readLe32, h0, h1, h2, h3]

theorem readLe64_congr {a : Buf n} {b : Buf m}
    (same : ∀ i < 8, a.get (off + i) = b.get (off' + i)) : a.readLe64 off = b.readLe64 off' := by
  have low : a.readLe32 off = b.readLe32 off' := readLe32_congr fun i inside => same i (by omega)
  have high : a.readLe32 (off + 4) = b.readLe32 (off' + 4) := by
    apply readLe32_congr
    intro i inside
    have h := same (4 + i) (by omega)
    rwa [← Nat.add_assoc, ← Nat.add_assoc] at h
  simp only [readLe64, low, high]

theorem readLe32_lt (b : Buf n) : b.readLe32 off < 2 ^ 32 := by
  have h0 := (b.get off).toNat_lt
  have h1 := (b.get (off + 1)).toNat_lt
  have h2 := (b.get (off + 2)).toNat_lt
  have h3 := (b.get (off + 3)).toNat_lt
  simp only [readLe32]
  omega

theorem readLe32_inj {a b : Buf n} (same : a.readLe32 off = b.readLe32 off)
    (inside : i < 4) : a.get (off + i) = b.get (off + i) := by
  have a0 := (a.get off).toNat_lt
  have a1 := (a.get (off + 1)).toNat_lt
  have a2 := (a.get (off + 2)).toNat_lt
  have b0 := (b.get off).toNat_lt
  have b1 := (b.get (off + 1)).toNat_lt
  have b2 := (b.get (off + 2)).toNat_lt
  simp only [readLe32] at same
  apply UInt8.toNat_inj.mp
  obtain rfl | rfl | rfl | rfl : i = 0 ∨ i = 1 ∨ i = 2 ∨ i = 3 := by omega
  · rw [Nat.add_zero]
    omega
  · omega
  · omega
  · omega

theorem ext_readLe32 {words : Nat} {a b : Buf (4 * words)}
    (same : ∀ k < words, a.readLe32 (4 * k) = b.readLe32 (4 * k)) : a = b := by
  apply ext_get
  intro i inside
  rw [← Nat.div_add_mod i 4]
  exact readLe32_inj (same (i / 4) (by omega)) (Nat.mod_lt i (by omega))

/-- A field keeps its value under a write that does not touch it. -/
theorem readLe32_write_outside (outside : off + 4 ≤ at_ ∨ at_ + bytes.length ≤ off) :
    (b.write at_ bytes).readLe32 off = b.readLe32 off :=
  readLe32_congr fun _ inside => get_write_outside (by omega)

theorem readLe16_write_self {v : Nat} (inside : off + 2 ≤ n) :
    (b.write off (le16 v)).readLe16 off = v % 2 ^ 16 := by
  have h0 : (b.write off (le16 v)).get off = UInt8.ofNat v :=
    get_write_inside (i := 0) (by omega) (by simp)
  have h1 : (b.write off (le16 v)).get (off + 1) = UInt8.ofNat (v / 2 ^ 8) :=
    get_write_inside (by omega) (by simp)
  simp only [readLe16, h0, h1, UInt8.toNat_ofNat']
  omega

theorem readLe32_write_self {v : Nat} (inside : off + 4 ≤ n) :
    (b.write off (le32 v)).readLe32 off = v % 2 ^ 32 := by
  have h0 : (b.write off (le32 v)).get off = UInt8.ofNat v :=
    get_write_inside (i := 0) (by omega) (by simp)
  have h1 : (b.write off (le32 v)).get (off + 1) = UInt8.ofNat (v / 2 ^ 8) :=
    get_write_inside (by omega) (by simp)
  have h2 : (b.write off (le32 v)).get (off + 2) = UInt8.ofNat (v / 2 ^ 16) :=
    get_write_inside (by omega) (by simp)
  have h3 : (b.write off (le32 v)).get (off + 3) = UInt8.ofNat (v / 2 ^ 24) :=
    get_write_inside (by omega) (by simp)
  simp only [readLe32, h0, h1, h2, h3, UInt8.toNat_ofNat']
  omega

theorem readLe64_write_self {v : Nat} (inside : off + 8 ≤ n) :
    (b.write off (le64 v)).readLe64 off = v % 2 ^ 64 := by
  have low : (b.write off (le64 v)).readLe32 off = v % 2 ^ 32 := by
    have same : (b.write off (le64 v)).readLe32 off =
        (b.write off (le32 (v % 2 ^ 32))).readLe32 off := by
      refine readLe32_congr fun i small => ?_
      rw [get_write_inside (by omega) (by simp only [length_le64]; omega),
        get_write_inside (by omega) (by simpa using small), le64,
        List.getD_append _ _ _ _ (by simpa using small)]
    rw [same, readLe32_write_self (by omega), Nat.mod_mod]
  have high : (b.write off (le64 v)).readLe32 (off + 4) = v / 2 ^ 32 % 2 ^ 32 := by
    have same : (b.write off (le64 v)).readLe32 (off + 4) =
        (b.write (off + 4) (le32 (v / 2 ^ 32 % 2 ^ 32))).readLe32 (off + 4) := by
      refine readLe32_congr fun i small => ?_
      rw [Nat.add_assoc off 4 i, get_write_inside (by omega) (by simp only [length_le64]; omega),
        ← Nat.add_assoc, get_write_inside (by omega) (by simpa using small), le64,
        List.getD_append_right _ _ _ _ (by simp)]
      simp
    rw [same, readLe32_write_self (by omega), Nat.mod_mod]
  simp only [readLe64]
  omega

end Buf

/-- The test `value & (1 << bit)` of a byte. -/
def bitSet (value : UInt8) (bit : Nat) : Bool := value &&& UInt8.ofNat (2 ^ bit) != 0

private theorem toNat_two_pow (small : bit < 8) : (UInt8.ofNat (2 ^ bit)).toNat = 2 ^ bit := by
  exact Nat.mod_eq_of_lt (Nat.pow_lt_pow_right (by omega) small)

theorem bitSet_eq_testBit (small : bit < 8) : bitSet value bit = value.toNat.testBit bit := by
  rw [bitSet, Bool.eq_iff_iff, bne_iff_ne, ne_eq, ← UInt8.toNat_inj, UInt8.toNat_and,
    toNat_two_pow small, Nat.and_two_pow]
  cases value.toNat.testBit bit <;> simp

theorem eq_of_bitSet (same : ∀ bit < 8, bitSet a bit = bitSet b bit) : a = b := by
  apply UInt8.toNat_inj.mp
  apply Nat.eq_of_testBit_eq
  intro bit
  by_cases small : bit < 8
  · rw [← bitSet_eq_testBit small, ← bitSet_eq_testBit small]
    exact same bit small
  · have high : 2 ^ 8 ≤ 2 ^ bit := Nat.pow_le_pow_right (by omega) (by omega)
    have lowA := a.toNat_lt
    have lowB := b.toNat_lt
    rw [Nat.testBit_lt_two_pow (by omega), Nat.testBit_lt_two_pow (by omega)]

theorem bitSet_union (small : bit < 8) : bitSet (a ||| b) bit = (bitSet a bit || bitSet b bit) := by
  rw [bitSet_eq_testBit small, bitSet_eq_testBit small, bitSet_eq_testBit small, UInt8.toNat_or,
    Nat.testBit_or]

theorem bitSet_or (hi : i < 8) (hj : j < 8) :
    bitSet (value ||| UInt8.ofNat (2 ^ i)) j = (decide (j = i) || bitSet value j) := by
  rw [bitSet_eq_testBit hj, bitSet_eq_testBit hj, UInt8.toNat_or, toNat_two_pow hi,
    Nat.testBit_or, Nat.testBit_two_pow, Bool.or_comm]
  simp [eq_comm]

theorem bitSet_and_not (hi : i < 8) (hj : j < 8) :
    bitSet (value &&& ~~~ UInt8.ofNat (2 ^ i)) j = (!decide (j = i) && bitSet value j) := by
  have flip : (~~~ UInt8.ofNat (2 ^ i)).toNat = 2 ^ 8 - (2 ^ i + 1) := by
    rw [UInt8.toNat_not, toNat_two_pow hi, UInt8.size]
    omega
  rw [bitSet_eq_testBit hj, bitSet_eq_testBit hj, UInt8.toNat_and, Nat.testBit_and, flip,
    Nat.testBit_two_pow_sub_succ (Nat.pow_lt_pow_right (by omega) hi), Nat.testBit_two_pow,
    Bool.and_comm]
  simp [hj, eq_comm]

end TangPingOS.Lib
