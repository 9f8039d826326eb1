import TangPingOS.Lib.Bytes

/-! # Files as byte strings

What writing and resizing do to a byte string, and a store of such strings under
names: which names it accepts, how long a string and how many of them it may hold.
An operation that fails leaves the store alone.
-/

namespace TangPingOS.Lib

/-- `bytes` written at `offset`; a gap before it is filled with zeros. -/
def overwrite (content : Bytes) (offset : Nat) (bytes : Bytes) : Bytes :=
  (content ++ List.replicate (offset - content.length) 0).take offset ++ bytes ++
    content.drop (offset + bytes.length)

/-- Cut, or extended by zeros, to `size` bytes. -/
def resize (content : Bytes) (size : Nat) : Bytes :=
  content.take size ++ List.replicate (size - content.length) 0

theorem ext_getD {a b : Bytes} (length : a.length = b.length)
    (same : ∀ i < a.length, a.getD i 0 = b.getD i 0) : a = b := by
  apply List.ext_getElem length
  intro i left right
  simpa [List.getD, left, right] using same i left

@[simp] theorem length_overwrite :
    (overwrite content offset bytes).length = max content.length (offset + bytes.length) := by
  simp only [overwrite, List.length_append, List.length_take, List.length_replicate,
    List.length_drop]
  omega

theorem getD_overwrite :
    (overwrite content offset bytes).getD i 0 =
      if offset ≤ i ∧ i < offset + bytes.length then bytes.getD (i - offset) 0
      else content.getD i 0 := by
  have first : ((content ++ List.replicate (offset - content.length) 0).take offset).length
      = offset := by
    simp only [List.length_take, List.length_append, List.length_replicate]
    omega
  unfold overwrite
  rcases Nat.lt_or_ge i offset with before | behind
  · rw [List.append_assoc, List.getD_append _ _ _ _ (by omega), if_neg (by omega)]
    rw [List.getD_eq_getElem?_getD, List.getElem?_take_of_lt before, ← List.getD_eq_getElem?_getD]
    rcases Nat.lt_or_ge i content.length with inside | outside
    · rw [List.getD_append _ _ _ _ inside]
    · rw [List.getD_append_right _ _ _ _ outside, List.getD_replicate, List.getD_eq_default _ _ outside]
      omega
  · rcases Nat.lt_or_ge i (offset + bytes.length) with inside | outside
    · rw [if_pos ⟨behind, inside⟩, List.getD_append _ _ _ _ (by rw [List.length_append]; omega),
        List.getD_append_right _ _ _ _ (by omega), first]
    · rw [if_neg (by omega), List.getD_append_right _ _ _ _ (by rw [List.length_append]; omega),
        List.length_append, List.getD_eq_getElem?_getD, List.getElem?_drop,
        ← List.getD_eq_getElem?_getD]
      congr 1
      omega

theorem overwrite_parts {bytes : Bytes} (within : done + count ≤ bytes.length) :
    overwrite (overwrite content start (bytes.take done)) (start + done) ((bytes.drop done).take count)
      = overwrite content start (bytes.take (done + count)) := by
  have first : (bytes.take done).length = done := List.length_take_of_le (by omega)
  have second : ((bytes.drop done).take count).length = count := by simp; omega
  have whole : (bytes.take (done + count)).length = done + count := List.length_take_of_le within
  have inTake : ∀ {i n}, i < n → (bytes.take n).getD i 0 = bytes.getD i 0 := by
    intro i n inside
    rw [List.getD_eq_getElem?_getD, List.getElem?_take_of_lt inside, List.getD_eq_getElem?_getD]
  apply ext_getD
  · simp only [length_overwrite, first]
    omega
  · intro i _
    simp only [getD_overwrite, first, second]
    by_cases inSecond : start + done ≤ i ∧ i < start + done + count
    · rw [if_pos inSecond, if_pos (by omega), inTake (by omega), List.getD_eq_getElem?_getD,
        List.getElem?_take_of_lt (by omega), List.getElem?_drop]
      congr 2
      omega
    · rw [if_neg inSecond]
      by_cases inFirst : start ≤ i ∧ i < start + done
      · rw [if_pos inFirst, if_pos (by omega), inTake (by omega), inTake (by omega)]
      · rw [if_neg inFirst, if_neg (by omega)]

theorem overwrite_end : overwrite content content.length bytes = content ++ bytes := by
  simp [overwrite]

/-- Writing over a string looks like writing over the empty one just where the string has nothing but
    zeros before the offset and ends inside what is written. -/
theorem overwrite_eq_nil_iff :
    overwrite content offset bytes = overwrite [] offset bytes ↔
      content.length ≤ offset + bytes.length ∧ ∀ i < offset, content.getD i 0 = 0 := by
  constructor
  · intro same
    constructor
    · have lengths := congrArg List.length same
      rw [length_overwrite, length_overwrite, List.length_nil] at lengths
      omega
    · intro i before
      have bytes_i := congrArg (fun l => l.getD i 0) same
      simp only [getD_overwrite] at bytes_i
      rw [if_neg (by omega), if_neg (by omega)] at bytes_i
      exact bytes_i.trans (List.getD_eq_default _ _ (Nat.zero_le i))
  · rintro ⟨short, zeros⟩
    apply ext_getD
    · rw [length_overwrite, length_overwrite, List.length_nil]
      omega
    · intro i inside
      rw [length_overwrite] at inside
      rw [getD_overwrite, getD_overwrite]
      split
      · rfl
      · rw [zeros i (by omega), List.getD_eq_default _ _ (Nat.zero_le i)]

@[simp] theorem length_resize : (resize content size).length = size := by
  simp only [resize, List.length_append, List.length_take, List.length_replicate]
  omega

theorem getD_resize (inside : i < size) : (resize content size).getD i 0 = content.getD i 0 := by
  unfold resize
  rcases Nat.lt_or_ge i content.length with held | beyond
  · rw [List.getD_append _ _ _ _ (by simp only [List.length_take]; omega),
      List.getD_eq_getElem?_getD, List.getElem?_take_of_lt inside, ← List.getD_eq_getElem?_getD]
  · rw [List.getD_append_right _ _ _ _ (by simp only [List.length_take]; omega),
      List.getD_eq_default _ _ beyond, List.getD_replicate]
    simp only [List.length_take]
    omega

abbrev FileMap := Bytes → Option Bytes

namespace FileMap

def keys (m : FileMap) : Set Bytes := {p | (m p).isSome}

/-- What a store accepts. -/
structure Limits where
  valid : Bytes → Prop
  fileSize : Nat
  files : Nat

variable (lim : Limits)

open Classical in
/-- The string under a name is replaced by `change` of it, an absent one standing for the empty string;
    refused if there is no room for another name. -/
noncomputable def edit (m : FileMap) (p : Bytes) (change : Bytes → Bytes) : Option FileMap :=
  match m p with
  | some content => some (Function.update m p (some (change content)))
  | none => if m.keys.ncard < lim.files then some (Function.update m p (some (change []))) else none

open Classical in
noncomputable def write (m : FileMap) (p : Bytes) (offset : Nat) (bytes : Bytes) : Option Nat × FileMap :=
  if lim.valid p ∧ offset + bytes.length ≤ lim.fileSize then
    match edit lim m p fun content => overwrite content offset bytes with
    | some m' => (some bytes.length, m')
    | none => (none, m)
  else (none, m)

open Classical in
noncomputable def truncate (m : FileMap) (p : Bytes) (size : Nat) : Bool × FileMap :=
  if lim.valid p ∧ size ≤ lim.fileSize then
    match edit lim m p fun content => resize content size with
    | some m' => (true, m')
    | none => (false, m)
  else (false, m)

def unlink (m : FileMap) (p : Bytes) : Bool × FileMap :=
  match m p with
  | some _ => (true, Function.update m p none)
  | none => (false, m)

def read (m : FileMap) (p : Bytes) (offset len : Nat) : Option Bytes :=
  (m p).map fun content => (content.drop offset).take len

def size (m : FileMap) (p : Bytes) : Option Nat := (m p).map List.length

variable {lim} {m : FileMap} {p : Bytes} {change : Bytes → Bytes}

def Editable (lim : Limits) (m : FileMap) (p : Bytes) : Prop :=
  (m p).isSome ∨ m.keys.ncard < lim.files

theorem edit_some (editable : Editable lim m p) :
    edit lim m p change = some (Function.update m p (some (change ((m p).getD [])))) := by
  unfold edit
  cases held : m p with
  | some content => rfl
  | none =>
    have room : m.keys.ncard < lim.files := by simpa [Editable, held] using editable
    simp [room]

theorem edit_none (full : ¬Editable lim m p) : edit lim m p change = none := by
  unfold edit
  cases held : m p with
  | some content => simp [Editable, held] at full
  | none =>
    have room : ¬m.keys.ncard < lim.files := by simpa [Editable, held] using full
    simp [room]

theorem write_isSome_iff :
    (m.write lim p offset bytes).1.isSome ↔
      lim.valid p ∧ offset + bytes.length ≤ lim.fileSize ∧ Editable lim m p := by
  unfold write
  by_cases allowed : lim.valid p ∧ offset + bytes.length ≤ lim.fileSize
  · by_cases editable : Editable lim m p
    · simp [edit_some editable, allowed, editable]
    · simp [edit_none editable, editable]
  · rw [← and_assoc]
    simp [allowed]

theorem truncate_iff {size : Nat} :
    (m.truncate lim p size).1 ↔ lim.valid p ∧ size ≤ lim.fileSize ∧ Editable lim m p := by
  unfold truncate
  by_cases allowed : lim.valid p ∧ size ≤ lim.fileSize
  · by_cases editable : Editable lim m p
    · simp [edit_some editable, allowed, editable]
    · simp [edit_none editable, editable]
  · rw [← and_assoc]
    simp [allowed]

theorem unlink_iff : (m.unlink p).1 ↔ (m p).isSome := by
  unfold unlink
  cases m p <;> simp

/-- A write that succeeds replaces the string under its name. -/
theorem write_accepted (accepted : (m.write lim p offset bytes).1 = some count) :
    lim.valid p ∧ (m.write lim p offset bytes).2
      = Function.update m p (some (overwrite ((m p).getD []) offset bytes)) := by
  unfold write at accepted ⊢
  split at accepted
  · rename_i allowed
    rw [if_pos allowed]
    by_cases editable : Editable lim m p
    · rw [edit_some editable]
      exact ⟨allowed.1, rfl⟩
    · rw [edit_none editable] at accepted
      cases accepted
  · cases accepted

theorem write_failed (failed : (m.write lim p offset bytes).1 = none) : (m.write lim p offset bytes).2 = m := by
  unfold write at failed ⊢
  split at failed
  · rename_i accepted
    rw [if_pos accepted]
    split at failed
    · cases failed
    · rfl
  · rename_i rejected
    rw [if_neg rejected]

theorem truncate_accepted {size : Nat} (accepted : (m.truncate lim p size).1) :
    (m.truncate lim p size).2 = Function.update m p (some (resize ((m p).getD []) size)) := by
  obtain ⟨valid, fits, editable⟩ := truncate_iff.mp accepted
  rw [truncate, if_pos ⟨valid, fits⟩, edit_some editable]

theorem truncate_failed {size : Nat} (failed : (m.truncate lim p size).1 = false) :
    (m.truncate lim p size).2 = m := by
  unfold truncate at failed ⊢
  split at failed
  · rename_i accepted
    rw [if_pos accepted]
    split at failed
    · cases failed
    · rfl
  · rename_i rejected
    rw [if_neg rejected]

theorem unlink_failed (failed : (m.unlink p).1 = false) : (m.unlink p).2 = m := by
  unfold unlink at failed ⊢
  cases held : m p with
  | some content => simp [held] at failed
  | none => rfl

end FileMap

end TangPingOS.Lib
