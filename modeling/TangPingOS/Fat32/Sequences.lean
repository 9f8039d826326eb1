import TangPingOS.Fat32.EndMark

/-! # Which long names are believed

The decoder of long names counts entries since the last one that carries the mark 0x40. It looks
at the range of their numbers and at their checksums, and not at their order.
-/

namespace TangPingOS

open Lib

variable {entry marked short : FatEntry} {lfn : LfnState} {before pre rest : List FatEntry}

def lfnOrder (entry : FatEntry) : UInt8 := entry.get 0 &&& 0x1f

/-! ## The decoder along a list of slots -/

def lfnStep (lfn : LfnState) (entry : FatEntry) : LfnState :=
  if entry.get 0 = 0xe5 then fat32LfnReset lfn
  else if entry.get 11 = 0x0f then fat32LfnDecodeEntry entry lfn
  else fat32LfnReset lfn

theorem parseFat32Entry_lfn (parent : Bytes) (unmarked : entry.get 0 ≠ 0) (st : FatParse) :
    ∃ entries, parseFat32Entry parent entry st = some ⟨lfnStep st.lfn entry, entries⟩ := by
  simp only [parseFat32Entry, lfnStep, unmarked, if_false]
  split
  · exact ⟨_, rfl⟩
  split
  · exact ⟨_, rfl⟩
  split
  · exact ⟨_, rfl⟩
  · exact ⟨_, rfl⟩

/-- The parser comes to the slots behind `pre` if no end mark is in front, with this decoder. -/
theorem fatParsedBefore_lfn (parent : Bytes) (stack : LfnState) (entries : List RootEntry) {pre} :
    ((fatParsedBefore parent stack entries pre).2 = false ↔ ∀ entry ∈ pre, entry.get 0 ≠ 0) ∧
      ((fatParsedBefore parent stack entries pre).2 = false →
        (fatParsedBefore parent stack entries pre).1.lfn = pre.foldl lfnStep (fat32LfnReset stack)) := by
  unfold fatParsedBefore
  generalize fat32LfnReset stack = lfn
  induction pre generalizing lfn entries with
  | nil => simp [parseFat32Entries]
  | cons entry rest ih =>
    simp only [parseFat32Entries, List.forall_mem_cons]
    by_cases ends : entry.get 0 = 0
    · simp [parseFat32Entry, ends]
    · obtain ⟨entries', parsed⟩ := parseFat32Entry_lfn parent ends ⟨lfn, entries⟩
      rw [parsed]
      simp only [ends, ne_eq, not_false_eq_true, true_and]
      exact ih entries' (lfnStep lfn entry)

/-! ## Runs of long-name entries -/

/-- A long-name entry with a number that the decoder accepts. -/
structure Numbered (entry : FatEntry) : Prop where
  kept : entry.get 0 ≠ 0xe5
  long : entry.get 11 = 0x0f
  low : lfnOrder entry ≠ 0
  high : ¬5 < lfnOrder entry

/-- An entry with the mark and entries that go on with its name, as far as the decoder checks. -/
structure LfnRun (marked : FatEntry) (rest : List FatEntry) : Prop where
  first : Numbered marked
  mark : marked.get 0 &&& 0x40 ≠ 0
  others : ∀ entry ∈ rest, Numbered entry ∧ entry.get 0 &&& 0x40 = 0 ∧
    ¬lfnOrder marked < lfnOrder entry ∧ entry.get 13 = marked.get 13

/-- The slots end with a run. -/
structure EndsInRun (pre before : List FatEntry) (marked : FatEntry) (rest : List FatEntry) : Prop where
  slots : pre = before ++ marked :: rest
  run : LfnRun marked rest

/-- There is only one run that the slots end with: it begins at the last mark. -/
theorem EndsInRun.unique (one : EndsInRun pre before marked rest) (other : EndsInRun pre before' marked' rest') :
    marked = marked' ∧ rest = rest' := by
  have slots := one.slots.symm.trans other.slots
  have notInside {before before' rest rest' : List FatEntry} {marked marked' : FatEntry}
      (slots : before ++ marked :: rest = before' ++ marked' :: rest') (run : LfnRun marked rest)
      (run' : LfnRun marked' rest') (longer : before.length < before'.length) : False := by
    obtain ⟨more, rfl⟩ : ∃ more, before' = before ++ marked :: more := by
      obtain ⟨more, rfl⟩ : before <+: before' :=
        List.prefix_of_prefix_length_le (slots ▸ List.prefix_append before _) (List.prefix_append before' _)
          (Nat.le_of_lt longer)
      rw [List.append_assoc, List.append_cancel_left_eq] at slots
      cases more with
      | nil => simp at longer
      | cons entry more =>
        rw [List.cons_append, List.cons.injEq] at slots
        exact ⟨more, slots.1 ▸ rfl⟩
    rw [List.append_assoc, List.append_cancel_left_eq, List.cons_append, List.cons.injEq] at slots
    have inside : marked' ∈ rest := slots.2 ▸ List.mem_append_right more List.mem_cons_self
    exact run'.mark (run.others marked' inside).2.1
  obtain less | same | more := Nat.lt_trichotomy before.length before'.length
  · exact (notInside slots one.run other.run less).elim
  · obtain ⟨-, tails⟩ := List.append_inj slots same
    exact List.cons.inj tails
  · exact (notInside slots.symm other.run one.run more).elim

theorem EndsInRun.concat (ends : EndsInRun (pre ++ [entry]) before marked rest) :
    entry = marked ∧ rest = [] ∨ ∃ rest', rest = rest' ++ [entry] ∧ EndsInRun pre before marked rest' := by
  obtain ⟨slots, run⟩ := ends
  cases rest using List.reverseRecOn with
  | nil => exact .inl ⟨List.singleton_inj.mp (List.append_inj_right' slots rfl), rfl⟩
  | append_singleton rest entry' =>
    rw [← List.cons_append, ← List.append_assoc] at slots
    have last : entry = entry' := List.singleton_inj.mp (List.append_inj_right' slots rfl)
    refine .inr ⟨rest, last ▸ rfl, List.append_inj_left' slots rfl, run.first, run.mark, ?_⟩
    exact fun e member => run.others e (List.mem_append_left _ member)

theorem EndsInRun.numbered (ends : EndsInRun (pre ++ [entry]) before marked rest) : Numbered entry := by
  obtain ⟨rfl, -⟩ | ⟨rest', rfl, -⟩ := ends.concat
  · exact ends.run.first
  · exact (ends.run.others entry (by simp)).1

/-- The first byte of the decoded name: the first character of the last entry with number 1 that has one. -/
def firstByte (run : List FatEntry) : UInt8 :=
  run.foldl (fun byte entry =>
    if lfnOrder entry = 1 then
      if entry.readLe16 1 = 0 then 0
      else if entry.readLe16 1 = 0xffff then byte
      else if entry.readLe16 1 < 0x80 then UInt8.ofNat (entry.readLe16 1) else 0x3f
    else byte) 0

/-- The decoder has taken in the run. -/
structure Collected (lfn : LfnState) (marked : FatEntry) (rest : List FatEntry) : Prop where
  valid : lfn.valid
  present : lfn.present
  total : lfn.totalEntries = lfnOrder marked
  checksum : lfn.checksum = marked.get 13
  seen : lfn.seenEntries = UInt8.ofNat (rest.length + 1)
  name : lfn.name.get 0 = firstByte (marked :: rest)

theorem lfnDecodeChars_first (entry : FatEntry) (offs : List Nat) (later : 0 < out) (name : Buf 64) :
    (lfnDecodeChars entry offs out name).get 0 = name.get 0 := by
  induction offs generalizing out name with
  | nil => rfl
  | cons off rest ih =>
    have other : 0 ≠ out := Nat.ne_of_lt later
    simp only [lfnDecodeChars]
    split
    · exact Buf.get_set_other other
    split
    · rfl
    split
    · exact ih (Nat.succ_pos out) name
    · rw [ih (Nat.succ_pos out), Buf.get_set_other other]

/-- What an accepted entry does to the first byte of the name. -/
theorem lfnAccept_first (low : lfnOrder entry ≠ 0) :
    (lfnAccept entry lfn).name.get 0 =
      if lfnOrder entry = 1 then
        if entry.readLe16 1 = 0 then 0
        else if entry.readLe16 1 = 0xffff then lfn.name.get 0
        else if entry.readLe16 1 < 0x80 then UInt8.ofNat (entry.readLe16 1) else 0x3f
      else lfn.name.get 0 := by
  have decoded : (lfnAccept entry lfn).name =
      lfnDecodeChars entry lfnOffsets (((lfnOrder entry).toNat - 1) * 13) lfn.name := rfl
  rw [decoded]
  by_cases first : lfnOrder entry = 1
  · rw [first]
    have start : ((1 : UInt8).toNat - 1) * 13 = 0 := by decide
    rw [start, lfnOffsets, lfnDecodeChars]
    split
    · exact Buf.get_set_self (by decide)
    split
    · rfl
    rw [if_neg (by decide), lfnDecodeChars_first entry _ (by decide)]
    exact Buf.get_set_self (by decide)
  · rw [if_neg first]
    apply lfnDecodeChars_first
    have big : 2 ≤ (lfnOrder entry).toNat := by
      simp only [ne_eq, ← UInt8.toNat_inj, UInt8.reduceToNat] at low first
      omega
    omega

theorem firstByte_concat (run : List FatEntry) :
    firstByte (run ++ [entry]) =
      if lfnOrder entry = 1 then
        if entry.readLe16 1 = 0 then 0
        else if entry.readLe16 1 = 0xffff then firstByte run
        else if entry.readLe16 1 < 0x80 then UInt8.ofNat (entry.readLe16 1) else 0x3f
      else firstByte run := by
  rw [firstByte, List.foldl_append]
  rfl

/-- An entry with the mark begins a run, whatever the decoder holds. -/
theorem Collected.begin (numbered : Numbered entry) (mark : entry.get 0 &&& 0x40 ≠ 0) : Collected (lfnStep lfn entry) entry [] := by
  have step : lfnStep lfn entry = lfnAccept entry
      { fat32LfnReset lfn with totalEntries := lfnOrder entry, checksum := entry.get 13, valid := true } := by
    have inRange : ¬(entry.get 0 &&& 0x1f = 0 ∨ 5 < entry.get 0 &&& 0x1f) :=
      not_or.mpr ⟨numbered.low, numbered.high⟩
    simp only [lfnStep, numbered.kept, numbered.long, fat32LfnDecodeEntry, inRange, mark,
      ne_eq]
    rfl
  rw [step]
  refine ⟨rfl, rfl, rfl, rfl, rfl, ?_⟩
  rw [lfnAccept_first numbered.low]
  exact (firstByte_concat []).symm

theorem Collected.next
    (collected : Collected lfn marked rest) (numbered : Numbered entry) (plain : entry.get 0 &&& 0x40 = 0)
    (inside : ¬lfnOrder marked < lfnOrder entry) (same : entry.get 13 = marked.get 13) :
    Collected (lfnStep lfn entry) marked (rest ++ [entry]) := by
  have step : lfnStep lfn entry = lfnAccept entry lfn := by
    have inRange : ¬(entry.get 0 &&& 0x1f = 0 ∨ 5 < entry.get 0 &&& 0x1f) :=
      not_or.mpr ⟨numbered.low, numbered.high⟩
    have fits : ¬(!lfn.valid ∨ lfn.totalEntries < entry.get 0 &&& 0x1f ∨ entry.get 13 ≠ lfn.checksum) := by
      rw [collected.valid, collected.total, collected.checksum, same]
      exact not_or.mpr ⟨by simp, not_or.mpr ⟨inside, by simp⟩⟩
    simp only [lfnStep, numbered.kept, numbered.long, fat32LfnDecodeEntry, inRange, plain, fits, if_true,
      if_false, ne_eq, not_true_eq_false]
  rw [step]
  refine ⟨collected.valid, rfl, collected.total, collected.checksum, ?_, ?_⟩
  · show lfn.seenEntries + 1 = _
    rw [collected.seen, List.length_append]
    exact (UInt8.ofNat_add _ 1).symm
  · rw [lfnAccept_first numbered.low, ← List.cons_append, firstByte_concat, collected.name]

theorem lfnStep_invalid (other : ¬Numbered entry ∨ entry.get 0 &&& 0x40 = 0 ∧
      (lfn.valid = false ∨ lfn.totalEntries < lfnOrder entry ∨ entry.get 13 ≠ lfn.checksum)) :
    (lfnStep lfn entry).valid = false := by
  unfold lfnStep
  split
  · rfl
  split
  · rename_i kept long
    unfold fat32LfnDecodeEntry
    dsimp only
    split
    · rfl
    · rename_i inRange
      obtain notNumbered | ⟨plain, refused⟩ := other
      · exact absurd ⟨kept, long, (not_or.mp inRange).1, (not_or.mp inRange).2⟩ notNumbered
      · rw [if_neg (by simp [plain]), if_pos (by simpa [lfnOrder] using refused)]
        rfl
  · rfl

/-- What the decoder holds behind a list of slots: the run that they end with, or nothing. -/
theorem decoder_after (stack : LfnState) (pre : List FatEntry) :
    (∃ before marked rest, EndsInRun pre before marked rest ∧
      Collected (pre.foldl lfnStep (fat32LfnReset stack)) marked rest) ∨
    (pre.foldl lfnStep (fat32LfnReset stack)).valid = false ∧
      ∀ before marked rest, ¬EndsInRun pre before marked rest := by
  induction pre using List.reverseRecOn with
  | nil =>
    refine .inr ⟨rfl, fun before marked rest ends => ?_⟩
    have slots := ends.slots
    simp at slots
  | append_singleton pre entry ih =>
    rw [List.foldl_append, List.foldl_cons]
    by_cases numbered : Numbered entry
    · by_cases mark : entry.get 0 &&& 0x40 = 0
      · obtain ⟨before, marked, rest, ends, collected⟩ | ⟨invalid, none⟩ := ih
        · by_cases fits : ¬lfnOrder marked < lfnOrder entry ∧ entry.get 13 = marked.get 13
          · refine .inl ⟨before, marked, rest ++ [entry], ⟨?_, ends.run.first, ends.run.mark, ?_⟩,
              collected.next numbered mark fits.1 fits.2⟩
            · rw [ends.slots, List.append_assoc, List.cons_append]
            · intro e member
              obtain old | new := List.mem_append.mp member
              · exact ends.run.others e old
              · obtain rfl := List.mem_singleton.mp new
                exact ⟨numbered, mark, fits⟩
          · have refused : lfnOrder marked < lfnOrder entry ∨ entry.get 13 ≠ marked.get 13 := by
              rwa [not_and_or, not_not] at fits
            refine .inr ⟨lfnStep_invalid (.inr ⟨mark, .inr ?_⟩), fun before' marked' rest' ends' => ?_⟩
            · rw [collected.total, collected.checksum]
              exact refused
            · obtain ⟨rfl, -⟩ | ⟨rest'', rfl, earlier⟩ := ends'.concat
              · exact ends'.run.mark mark
              · obtain ⟨rfl, -⟩ := earlier.unique ends
                obtain ⟨-, -, inside, same⟩ := ends'.run.others entry (by simp)
                exact refused.elim inside (absurd same)
        · refine .inr ⟨lfnStep_invalid (.inr ⟨mark, .inl invalid⟩), fun before marked rest ends => ?_⟩
          obtain ⟨rfl, -⟩ | ⟨rest', rfl, earlier⟩ := ends.concat
          · exact ends.run.mark mark
          · exact none _ _ _ earlier
      · exact .inl ⟨pre, entry, [], ⟨rfl, numbered, mark, by simp⟩, .begin numbered mark⟩
    · exact .inr ⟨lfnStep_invalid (.inl numbered), fun _ _ _ ends => numbered ends.numbered⟩

/-- The slots end with a run that the decoder counts as the whole name of the short entry. -/
structure Counted (pre : List FatEntry) (short : FatEntry) (before : List FatEntry) (marked : FatEntry)
    (rest : List FatEntry) : Prop extends EndsInRun pre before marked rest where
  sum : marked.get 13 = fat32ShortNameChecksum short
  count : UInt8.ofNat (rest.length + 1) = lfnOrder marked
  named : firstByte (marked :: rest) ≠ 0

theorem longNameTaken_iff :
    longNameTaken short (pre.foldl lfnStep (fat32LfnReset stack)) ↔
      ∃ before marked rest, Counted pre short before marked rest := by
  simp only [longNameTaken, Bool.and_eq_true, bne_iff_ne, beq_iff_eq]
  obtain ⟨before, marked, rest, ends, collected⟩ | ⟨invalid, none⟩ := decoder_after stack pre
  · rw [collected.valid, collected.present, collected.total, collected.checksum, collected.seen, collected.name]
    constructor
    · rintro ⟨⟨⟨-, named⟩, count⟩, sum⟩
      exact ⟨before, marked, rest, ends, sum, count, named⟩
    · rintro ⟨before', marked', rest', counted⟩
      obtain ⟨rfl, rfl⟩ := counted.toEndsInRun.unique ends
      exact ⟨⟨⟨⟨rfl, rfl⟩, counted.named⟩, counted.count⟩, counted.sum⟩
  · rw [invalid]
    constructor
    · rintro ⟨⟨⟨⟨isValid, -⟩, -⟩, -⟩, -⟩
      cases isValid
    · rintro ⟨before, marked, rest, counted⟩
      exact absurd counted.toEndsInRun (none _ _ _)

/-- `k | 0x40`, `k - 1`, …, 1. -/
def sequenceBytes (k : Nat) : List UInt8 :=
  UInt8.ofNat (k ||| 0x40) :: (List.range (k - 1)).map fun i => UInt8.ofNat (k - 1 - i)

def CompleteSet (pre : List FatEntry) (short : FatEntry) : Prop :=
  ∃ before set k, pre = before ++ set ∧ 1 ≤ k ∧ k ≤ 5 ∧ set.map (Buf.get · 0) = sequenceBytes k ∧
    ∀ entry ∈ set, entry.get 11 = 0x0f ∧ entry.get 13 = fat32ShortNameChecksum short

/-- What the decoder makes of the first number of a complete set. -/
theorem marked_number : ∀ k < 6, 0 < k →
    UInt8.ofNat (k ||| 0x40) ≠ 0xe5 ∧ UInt8.ofNat (k ||| 0x40) &&& 0x1f = UInt8.ofNat k ∧
      UInt8.ofNat k ≠ 0 ∧ ¬5 < UInt8.ofNat k ∧ UInt8.ofNat (k ||| 0x40) &&& 0x40 ≠ 0 ∧
      (UInt8.ofNat k).toNat = k := by
  decide

theorem plain_number : ∀ k < 5, ∀ j < k,
    UInt8.ofNat (j + 1) ≠ 0xe5 ∧ UInt8.ofNat (j + 1) &&& 0x1f = UInt8.ofNat (j + 1) ∧
      UInt8.ofNat (j + 1) ≠ 0 ∧ ¬5 < UInt8.ofNat (j + 1) ∧ UInt8.ofNat (j + 1) &&& 0x40 = 0 ∧
      ¬UInt8.ofNat (k + 1) < UInt8.ofNat (j + 1) := by
  decide

theorem CompleteSet.endsInRun (complete : CompleteSet pre short) :
    ∃ before marked rest, EndsInRun pre before marked rest ∧
      (marked :: rest).map (Buf.get · 0) = sequenceBytes (lfnOrder marked).toNat := by
  obtain ⟨before, set, k, slots, low, high, numbers, stored⟩ := complete
  obtain ⟨kept, order, nonzero, small, mark, isK⟩ := marked_number k (by omega) low
  cases set with
  | nil => simp [sequenceBytes] at numbers
  | cons marked rest =>
    have bytes := numbers
    rw [List.map_cons, sequenceBytes, List.cons.injEq] at bytes
    obtain ⟨first, later⟩ := bytes
    have isOrder : lfnOrder marked = UInt8.ofNat k := by rw [lfnOrder, first, order]
    refine ⟨before, marked, rest, ⟨slots, ⟨?_, (stored marked List.mem_cons_self).1, ?_, ?_⟩, ?_, ?_⟩, ?_⟩
    · rw [first]
      exact kept
    · rw [isOrder]
      exact nonzero
    · rw [isOrder]
      exact small
    · rw [first]
      exact mark
    · intro entry member
      obtain ⟨long, sum⟩ := stored entry (List.mem_cons_of_mem _ member)
      have number := later ▸ List.mem_map_of_mem member
      obtain ⟨i, inside, isNumber⟩ := List.mem_map.mp number
      have inRange := List.mem_range.mp inside
      have facts := plain_number (k - 1) (by omega) (k - 1 - i - 1) (by omega)
      rw [Nat.sub_add_cancel low, Nat.sub_add_cancel (by omega)] at facts
      obtain ⟨kept, order, nonzero, small, plain, below⟩ := facts
      have isOrder' : lfnOrder entry = UInt8.ofNat (k - 1 - i) := by
        rw [lfnOrder, ← isNumber]
        exact order
      rw [isNumber] at kept plain
      refine ⟨⟨kept, long, ?_, ?_⟩, plain, ?_, sum.trans (stored marked List.mem_cons_self).2.symm⟩
      · rw [isOrder']
        exact nonzero
      · rw [isOrder']
        exact small
      · rw [isOrder, isOrder']
        exact below
    · rw [isOrder, isK]
      exact numbers

/-- A run with the numbers of a complete set is one, if the checksum is right. -/
theorem EndsInRun.completeSet
    (ends : EndsInRun pre before marked rest) (sum : marked.get 13 = fat32ShortNameChecksum short)
    (numbers : (marked :: rest).map (Buf.get · 0) = sequenceBytes (lfnOrder marked).toNat) :
    CompleteSet pre short := by
  have low := ends.run.first.low
  have high := ends.run.first.high
  simp only [ne_eq, ← UInt8.toNat_inj, UInt8.lt_iff_toNat_lt, UInt8.reduceToNat] at low high
  refine ⟨before, marked :: rest, (lfnOrder marked).toNat, ends.slots, by omega, by omega, numbers, ?_⟩
  intro entry member
  cases member with
  | head => exact ⟨ends.run.first.long, sum⟩
  | tail _ later =>
    obtain ⟨numbered, -, -, same⟩ := ends.run.others entry later
    exact ⟨numbered.long, same.trans sum⟩

/-- The parser comes to a valid short entry behind `pre` and names it after the decoder. -/
structure NamedByDecoder (parent : Bytes) (stack : LfnState) (entries : List RootEntry) (pre : List FatEntry)
    (short : FatEntry) : Prop where
  reached : (fatParsedBefore parent stack entries pre).2 = false
  valid : fat32EntryValid short
  taken : longNameTaken short (fatParsedBefore parent stack entries pre).1.lfn

/-- Only complete sets are believed, exactly if every run that the decoder counts as a whole name has its
    numbers in order. -/
theorem long_names_complete_iff (parent : Bytes) (stack : LfnState) (entries : List RootEntry)
    (slots : List FatEntry) :
    (∀ pre short post, slots = pre ++ short :: post → NamedByDecoder parent stack entries pre short →
      CompleteSet pre short) ↔
    ∀ pre short post, slots = pre ++ short :: post → (∀ entry ∈ pre, entry.get 0 ≠ 0) →
      fat32EntryValid short = true → ∀ before marked rest, Counted pre short before marked rest →
        (marked :: rest).map (Buf.get · 0) = sequenceBytes (lfnOrder marked).toNat := by
  constructor
  · intro believed pre short post isSlots unmarked valid before marked rest counted
    obtain ⟨reached, decoder⟩ := @fatParsedBefore_lfn parent stack entries pre
    have taken : longNameTaken short (fatParsedBefore parent stack entries pre).1.lfn := by
      rw [decoder (reached.mpr unmarked)]
      exact longNameTaken_iff.mpr ⟨before, marked, rest, counted⟩
    obtain ⟨before', marked', rest', ends, numbers⟩ :=
      (believed pre short post isSlots ⟨reached.mpr unmarked, valid, taken⟩).endsInRun
    obtain ⟨rfl, rfl⟩ := ends.unique counted.toEndsInRun
    exact numbers
  · rintro ordered pre short post isSlots ⟨reached, valid, taken⟩
    obtain ⟨unmarked, decoder⟩ := @fatParsedBefore_lfn parent stack entries pre
    rw [decoder reached] at taken
    obtain ⟨before, marked, rest, counted⟩ := longNameTaken_iff.mp taken
    exact counted.toEndsInRun.completeSet counted.sum
      (ordered pre short post isSlots (unmarked.mp reached) valid before marked rest counted)

def longThree : Bytes := (List.range 30).map fun i => UInt8.ofNat (0x41 + i)

/-- Its last entry and twice its first one; the second one is missing. -/
def setWithGap : List FatEntry :=
  [lfnEntryOf longThree (fat32ShortNameChecksum shortOne) 3,
    lfnEntryOf longThree (fat32ShortNameChecksum shortOne) 1,
    lfnEntryOf longThree (fat32ShortNameChecksum shortOne) 1]

theorem setWithGap_numbers : setWithGap.map (Buf.get · 0) = [0x43, 1, 1] := by decide +kernel

/-- The set with the gap is believed. -/
theorem long_name_with_gap_believed :
    NamedByDecoder rootPath cleanStack [] setWithGap shortOne ∧ ¬CompleteSet setWithGap shortOne ∧
      fat32EntryName shortOne (fatParsedBefore rootPath cleanStack [] setWithGap).1.lfn = longThree.take 13 := by
  refine ⟨⟨by decide +kernel, by decide +kernel, by decide +kernel⟩, ?_, by decide +kernel⟩
  rintro ⟨before, set, k, slots, low, high, numbers, -⟩
  have suffix : sequenceBytes k <:+ [0x43, 1, 1] := by
    rw [← setWithGap_numbers, slots, List.map_append, numbers]
    exact List.suffix_append _ _
  have none : ∀ k < 6, 0 < k → ¬sequenceBytes k <:+ [0x43, 1, 1] := by decide
  exact none k (by omega) low suffix

end TangPingOS
