import TangPingOS.Exfat.Sets

/-! # Decoding the sets of a directory sector

What `parse_exfat_directory_sector` makes of a set depends on the slots of that
set only. In a sector whose sets do not run into each other, editing one set
therefore leaves the names of all others.
-/

namespace TangPingOS

open Lib

variable {name : Bytes} {first i k left off size z : Nat} {s s' : Sector}

/-- An in-use file set begins in slot `k`. -/
def FileSlot (s : Sector) (k : Nat) : Prop := k < 16 ∧ s.get (k * 32) = 0x85

/-- The name that the set in slot `k` decodes to. -/
def setName (s : Sector) (k : Nat) : Bytes := (parseFileSet s k).name

/-- The slots of the sector behind slot `k` that its set claims. -/
def secondaries (s : Sector) (k : Nat) : Nat := min (s.get (k * 32 + 1)).toNat (15 - k)

/-! ## A set depends on its own slots -/

theorem appendExfatNameChars_congr (same : ∀ j < 32, s'.get (off + j) = s.get (off + j)) (expected : Nat)
    (inside : i + left ≤ 15) (name : Bytes) :
    appendExfatNameChars s' off expected i left name = appendExfatNameChars s off expected i left name := by
  induction left generalizing i name with
  | zero => rfl
  | succ left ih =>
    have low : s'.get (off + 2 + i * 2) = s.get (off + 2 + i * 2) := by
      rw [Nat.add_assoc]
      exact same _ (by omega)
    have high : s'.get (off + 3 + i * 2) = s.get (off + 3 + i * 2) := by
      rw [Nat.add_assoc]
      exact same _ (by omega)
    simp only [appendExfatNameChars, low, high, ih (i := i + 1) (by omega)]

theorem SetInfo.add_congr (same : ∀ j < 32, s'.get (off + j) = s.get (off + j)) {info : SetInfo} :
    info.add s' off = info.add s off := by
  have type : s'.get off = s.get off := same 0 (by omega)
  have flags := same 1 (by omega)
  have length := same 3 (by omega)
  have first : s'.readLe32 (off + 20) = s.readLe32 (off + 20) := Buf.readLe32_congr fun i small => by
    rw [Nat.add_assoc]
    exact same (20 + i) (by omega)
  have size : s'.readLe64 (off + 24) = s.readLe64 (off + 24) := Buf.readLe64_congr fun i small => by
    rw [Nat.add_assoc]
    exact same (24 + i) (by omega)
  have name := appendExfatNameChars_congr same info.nameLen (by omega : 0 + 15 ≤ 15) info.name
  simp only [SetInfo.add, type, flags, length, first, size, name]

theorem scanSecondaries_congr (same : ∀ j, slot * 32 ≤ j → j < (slot + left) * 32 → s'.get j = s.get j) :
    scanSecondaries s' slot left info = scanSecondaries s slot left info := by
  induction left generalizing slot info with
  | zero => rfl
  | succ left ih =>
    have here : info.add s' (slot * exfatEntrySize) = info.add s (slot * exfatEntrySize) :=
      SetInfo.add_congr (fun j small => same _ (Nat.le_add_right _ _) (by omega))
    rw [scanSecondaries, scanSecondaries, here, ih fun j low high => same j (by omega) (by omega)]

theorem parseFileSet_congr (same : ∀ j, k * 32 ≤ j → j < (k + 1 + secondaries s k) * 32 → s'.get j = s.get j) :
    parseFileSet s' k = parseFileSet s k := by
  have count : s'.get (k * exfatEntrySize + 1) = s.get (k * exfatEntrySize + 1) :=
    same _ (by unfold exfatEntrySize; omega) (by unfold exfatEntrySize; omega)
  unfold parseFileSet
  rw [count]
  exact scanSecondaries_congr (fun j low high => same j (by omega) high)

theorem length_appendExfatNameChars
    (short : name.length < 64) : (appendExfatNameChars s off expected i left name).length < 64 := by
  induction left generalizing i name with
  | zero => exact short
  | succ left ih =>
    simp only [appendExfatNameChars]
    split
    · split
      · exact short
      · apply ih
        split
        · rename_i fits
          rw [List.length_append]
          exact fits
        · exact short
    · exact short

theorem length_setName : (setName s k).length < 64 := by
  have scan (slot left : Nat) (info : SetInfo) (short : info.name.length < 64) :
      (scanSecondaries s slot left info).name.length < 64 := by
    induction left generalizing slot info with
    | zero => exact short
    | succ left ih =>
      apply ih
      unfold SetInfo.add
      split
      · exact short
      split
      · exact length_appendExfatNameChars short
      · exact short
  exact scan _ _ {} (by decide)

/-- The characters of one name entry, behind those of the entries before it. -/
theorem appendExfatNameChars_part {s off base} {name : Bytes} (fits : name.length < 64)
    (printable : ∀ c ∈ name, 32 ≤ c ∧ c < 127)
    (chars : ∀ i < 15, base + i < name.length →
      s.get (off + 2 + i * 2) = name.getD (base + i) 0 ∧ s.get (off + 3 + i * 2) = 0)
    {i left} (inside : i + left = 15) (upTo : base + i ≤ name.length) :
    appendExfatNameChars s off name.length i left (name.take (base + i)) = name.take (base + 15) := by
  induction left generalizing i with
  | zero => rw [appendExfatNameChars, ← inside, Nat.add_zero]
  | succ left ih =>
    have length := List.length_take_of_le upTo
    rw [appendExfatNameChars, length]
    split
    · rename_i more
      obtain ⟨low, high⟩ := chars i (by omega) more
      have char : name.getD (base + i) 0 = name[base + i] := by simp [more]
      rw [char] at low
      obtain ⟨atLeast, below⟩ := printable name[base + i] (List.getElem_mem more)
      have nonzero : name[base + i] ≠ 0 := by
        intro zero
        rw [zero] at atLeast
        exact absurd atLeast (by decide)
      simp only [low, high, nonzero, false_and, if_false, atLeast, below, and_self, if_true]
      rw [if_pos (by omega), List.take_append_getElem more]
      exact ih (by omega) more
    · rw [List.take_of_length_le (by omega), List.take_of_length_le (by omega)]

/-- Names that survive being written as one name entry. -/
structure PlainName (name : Bytes) : Prop where
  some_ : name ≠ []
  short : name.length ≤ 15
  printable : ∀ c ∈ name, 32 ≤ c ∧ c < 127

theorem plainName_of_parsed (parsed : parseExfatTestShortName path = some name) : PlainName name := by
  obtain ⟨-, some_, short, plain⟩ := parseExfatTestShortName_spec parsed
  exact ⟨some_, short, fun c member => ⟨(plain c member).1, (plain c member).2.1⟩⟩

theorem plainName_newTxt : PlainName newTxt := ⟨by decide, by decide, by decide +kernel⟩

theorem appendExfatNameChars_plain (plain : PlainName name)
    (chars : ∀ i < 15, s.get (off + 2 + i * 2) = (name.take 15).getD i 0 ∧ s.get (off + 3 + i * 2) = 0)
    (inside : i + left = 15) (upTo : i ≤ name.length) :
    appendExfatNameChars s off name.length i left (name.take i) = name := by
  have short := plain.short
  have whole : name.take 15 = name := List.take_of_length_le short
  rw [whole] at chars
  have copied := @appendExfatNameChars_part s off 0 name (by omega) plain.printable
    (fun i small _ => by rw [Nat.zero_add]; exact chars i small) i left inside (by omega)
  rw [Nat.zero_add, whole] at copied
  exact copied

section

variable (set : SetAt s (z * 32) name first size) (inside : z + 3 ≤ 16) (plain : PlainName name)

include set inside plain

/-- The parser reads back what create, resize and rename wrote. -/
theorem SetAt.parsed :
    parseFileSet s z =
      { streamFlags := 0, nameLen := name.length, firstCluster := first, size := size, name := name } := by
  have short := plain.short
  have byte := UInt8.toNat_ofNat_of_lt' (by show name.length < 256; omega)
  have count : min (s.get (z * exfatEntrySize + 1)).toNat (15 - z) = 2 := by
    have isTwo : s.get (z * exfatEntrySize + 1) = 2 := set.secondaries
    rw [isTwo]
    exact Nat.min_eq_left (by show 2 ≤ 15 - z; omega)
  have streamOff : (z + 1) * exfatEntrySize = z * 32 + 32 := Nat.succ_mul z 32
  have nameOff : (z + 1 + 1) * exfatEntrySize = z * 32 + 64 := by
    unfold exfatEntrySize
    omega
  have stream : SetInfo.add {} s (z * 32 + 32) =
      { streamFlags := 0, nameLen := name.length, firstCluster := first, size := size } := by
    have flags := set.flags
    have length := set.nameLength
    have isFirst := set.firstCluster
    have isSize := set.size
    rw [SetInfo.add, if_pos set.streamMark, flags, length, byte, isFirst, isSize]
    rfl
  have pos : 0 < name.length := List.length_pos_iff.mpr plain.some_
  have chars : ∀ i < 15, s.get (z * 32 + 64 + 2 + i * 2) = (name.take 15).getD i 0 ∧
      s.get (z * 32 + 64 + 3 + i * 2) = 0 := by
    intro i small
    have written := set.chars i small
    rw [Nat.mul_comm 2 i] at written
    exact written
  have named := appendExfatNameChars_plain plain chars (Nat.zero_add 15) (Nat.zero_le _)
  rw [List.take_zero] at named
  rw [parseFileSet, count, scanSecondaries, streamOff, stream, scanSecondaries, nameOff, scanSecondaries,
    SetInfo.add, if_neg (by rw [set.nameMark]; decide), if_pos ⟨set.nameMark, pos⟩]
  simp only [named]

theorem SetAt.setName : setName s z = name := by
  rw [TangPingOS.setName, set.parsed inside plain]

end

/-- The secondaries of every in-use set are in use, and behind an end mark there is nothing. -/
structure SectorOk (s : Sector) : Prop where
  inUse : ∀ k j, FileSlot s k → k < j → j ≤ k + secondaries s k → 0xc0 ≤ s.get (j * 32)
  ended : ∀ k j, k < j → j < 16 → s.get (k * 32) = 0 → s.get (j * 32) = 0

/-- The three slots from `z` on are rewritten. They were part of no other set and no end mark
    stood before them. Afterwards they hold one set of three slots, or nothing that is in use. -/
structure SlotEdit (s s' : Sector) (z : Nat) : Prop where
  inside : z + 3 ≤ 16
  only : OnlySet (z * 32) s s'
  open_ : s.get (z * 32) < 0xc0
  early : ∀ k < z, s.get (k * 32) ≠ 0
  whole : s'.get (z * 32) = 0x85 → s'.get (z * 32 + 1) = 2 ∧ 0xc0 ≤ s'.get ((z + 1) * 32) ∧
    0xc0 ≤ s'.get ((z + 2) * 32)
  rest : ∀ k, z < k → k < z + 3 → s'.get (k * 32) ≠ 0x85
  nonzero : ∀ k, z ≤ k → k < z + 3 → s'.get (k * 32) ≠ 0

namespace SlotEdit

variable (edit : SlotEdit s s' z)

include edit

theorem type_eq (other : k < z ∨ z + 3 ≤ k) : s'.get (k * 32) = s.get (k * 32) :=
  edit.only _ (by omega)

theorem fileSlot_iff (other : k < z ∨ z + 3 ≤ k) : FileSlot s' k ↔ FileSlot s k := by
  unfold FileSlot
  rw [edit.type_eq other]

section

variable (ok : SectorOk s) (file : FileSlot s k) (other : k < z ∨ z + 3 ≤ k)

include ok file other

theorem away (j : Nat) (low : k * 32 ≤ j) (high : j < (k + 1 + secondaries s k) * 32) : s'.get j = s.get j := by
  apply edit.only
  by_contra overlap
  have reaches := ok.inUse k z file (by omega) (by omega)
  exact absurd edit.open_ (UInt8.not_lt.mpr reaches)

theorem secondaries_eq : secondaries s' k = secondaries s k := by
  unfold secondaries
  rw [edit.away ok file other (k * 32 + 1) (by omega) (by omega)]

theorem setName_eq : setName s' k = setName s k :=
  congrArg SetInfo.name (parseFileSet_congr (edit.away ok file other))

end

/-- A set of the edited sector is the one in the three slots or an old one. -/
theorem fileSlot_cases (file : FileSlot s' k) : k = z ∨ (k < z ∨ z + 3 ≤ k) ∧ FileSlot s k := by
  by_cases other : k < z ∨ z + 3 ≤ k
  · exact .inr ⟨other, (edit.fileSlot_iff other).mp file⟩
  · by_cases here : k = z
    · exact .inl here
    · exact absurd file.2 (edit.rest k (by omega) (by omega))

theorem sectorOk (ok : SectorOk s) : SectorOk s' := by
  have inside := edit.inside
  constructor
  · intro k j file later reach
    obtain rfl | ⟨other, old⟩ := edit.fileSlot_cases file
    · obtain ⟨two, second, third⟩ := edit.whole file.2
      have count : secondaries s' k = 2 := by
        unfold secondaries
        rw [two]
        exact Nat.min_eq_left (by show 2 ≤ 15 - k; omega)
      obtain rfl | rfl : j = k + 1 ∨ j = k + 2 := by omega
      · exact second
      · exact third
    · rw [edit.secondaries_eq ok old other] at reach
      rw [edit.away ok old other (j * 32) (by omega) (by omega)]
      exact ok.inUse k j old later reach
  · intro k j later inSector zero
    by_cases before : k < z
    · rw [edit.type_eq (.inl before)] at zero
      exact absurd zero (edit.early k before)
    by_cases within : k < z + 3
    · exact absurd zero (edit.nonzero k (by omega) within)
    · rw [edit.type_eq (.inr (by omega))] at zero
      rw [edit.type_eq (.inr (by omega))]
      exact ok.ended k j later inSector zero

end SlotEdit

theorem type_of_free (free : exfatDirectorySlotFree s k) : s.get (k * 32) < 0x80 := by
  have bits : ∀ n < 256, (UInt8.ofNat n == 0 || UInt8.ofNat n &&& 0x80 == 0) →
      UInt8.ofNat n < 0x80 := by decide +kernel
  have here := bits (s.get (k * 32)).toNat (s.get (k * 32)).toNat_lt
  rw [UInt8.ofNat_toNat] at here
  exact here free

theorem free_of_zero (zero : s.get (k * 32) = 0) : exfatDirectorySlotFree s k := by
  have isZero : s.get (k * exfatEntrySize) = 0 := zero
  simp [exfatDirectorySlotFree, isZero]

section Edits

variable (ok : SectorOk s) (inside : z + 3 ≤ 16) (only : OnlySet (z * 32) s s')

include inside only

theorem SlotEdit.of_setAt (open_ : s.get (z * 32) < 0xc0)
    (early : ∀ k < z, s.get (k * 32) ≠ 0) (set : SetAt s' (z * 32) name first size) : SlotEdit s s' z := by
  have second : s'.get ((z + 1) * 32) = 0xc0 := by
    rw [Nat.succ_mul]
    exact set.streamMark
  have third : s'.get ((z + 2) * 32) = 0xc1 := by
    rw [Nat.add_mul]
    exact set.nameMark
  have marks : ∀ k, z ≤ k → k < z + 3 → k = z ∧ s'.get (k * 32) = 0x85 ∨
      k ≠ z ∧ (s'.get (k * 32) = 0xc0 ∨ s'.get (k * 32) = 0xc1) := by
    intro k low high
    obtain rfl | rfl | rfl : k = z ∨ k = z + 1 ∨ k = z + 2 := by omega
    · exact .inl ⟨rfl, set.fileMark⟩
    · exact .inr ⟨by omega, .inl second⟩
    · exact .inr ⟨by omega, .inr third⟩
  refine ⟨inside, only, open_, early, fun _ => ⟨set.secondaries, ?_, ?_⟩, ?_, ?_⟩
  · rw [second]
    decide
  · rw [third]
    decide
  · intro k low high
    obtain ⟨rfl, -⟩ | ⟨-, mark | mark⟩ := marks k (by omega) high
    · omega
    · rw [mark]
      decide
    · rw [mark]
      decide
  · intro k low high
    obtain ⟨-, mark⟩ | ⟨-, mark | mark⟩ := marks k low high
    all_goals
      rw [mark]
      decide

include ok

/-- A set is written into the first free slots of the sector. -/
theorem SlotEdit.create (free : FreeTriple s z)
    (isFirst : ∀ y < z, ¬ FreeTriple s y) (set : SetAt s' (z * 32) name first size) : SlotEdit s s' z := by
  apply SlotEdit.of_setAt inside only _ _ set
  · exact UInt8.lt_trans (type_of_free free.1) (by decide)
  · -- An end mark before the slots would itself begin three free slots.
    intro k before zero
    have next := ok.ended k (k + 1) (by omega) (by omega) zero
    have last := ok.ended k (k + 2) (by omega) (by omega) zero
    exact isFirst k before ⟨free_of_zero zero, free_of_zero next, free_of_zero last⟩

variable (set : SetAt s (z * 32) name first size)

include set

omit only in
theorem SectorOk.no_end_before : ∀ k < z, s.get (k * 32) ≠ 0 := by
  intro k before zero
  have zeroHere := ok.ended k z before (by omega) zero
  rw [set.fileMark] at zeroHere
  exact absurd zeroHere (by decide)

theorem SlotEdit.rewrite (set' : SetAt s' (z * 32) name' first' size') : SlotEdit s s' z := by
  apply SlotEdit.of_setAt inside only _ (ok.no_end_before inside set) set'
  rw [set.fileMark]
  decide

omit only in
theorem SlotEdit.delete (deleted : (Patch.deleteEntries (z * 32) 3).apply s = some s') :
    SlotEdit s s' z ∧ s'.get (z * 32) ≠ 0x85 := by
  have fits : z * 32 + 96 ≤ 512 := by omega
  have only := onlySet_deleted deleted fits
  have marks : ∀ k, z ≤ k → k < z + 3 → s'.get (k * 32) ≠ 0x85 ∧ s'.get (k * 32) ≠ 0 := by
    intro k low high
    rw [deleteEntries_spec deleted fits, if_pos (by omega)]
    obtain rfl | rfl | rfl : k = z ∨ k = z + 1 ∨ k = z + 2 := by omega
    · rw [set.fileMark]
      decide
    · rw [Nat.succ_mul, set.streamMark]
      decide
    · rw [Nat.add_mul, set.nameMark]
      decide
  have head := (marks z (Nat.le_refl z) (by omega)).1
  refine ⟨⟨inside, only, ?_, ok.no_end_before inside set, fun mark => absurd mark head, ?_, ?_⟩, head⟩
  · rw [set.fileMark]
    decide
  · exact fun k low high => (marks k (by omega) high).1
  · exact fun k low high => (marks k low high).2

end Edits

end TangPingOS
