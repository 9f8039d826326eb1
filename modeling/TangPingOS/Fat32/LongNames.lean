import TangPingOS.Fat32.Directory

/-! # Decoding long names

A name stored as a correct set of long-name entries is decoded into the buffer of the
decoder character by character. The set ends it with a zero unless its length is a
multiple of 13; then the byte behind it is what the buffer held before.
-/

namespace TangPingOS

open Lib

variable {name parent : Bytes} {entry short : FatEntry} {lfn : LfnState} {set : List FatEntry} {k : Nat}

section

variable (name : Bytes)

/-- An ASCII name that fits a directory entry of the mount. -/
structure LongName : Prop where
  some_ : name ≠ []
  fits : name.length ≤ 63
  ascii : ∀ c ∈ name, c ≠ 0 ∧ c < 0x80

/-- The unit stored at index `i` of a name: behind it a zero, then padding. -/
def lfnUnit (i : Nat) : Nat :=
  if i < name.length then (name.getD i 0).toNat else if i = name.length then 0 else 0xffff

def lfnCount : Nat := (name.length + 12) / 13

/-- Entry `k` of the set for a name; the last one carries the mark 0x40. -/
structure LfnEntry (sum : UInt8) (k : Nat) (entry : FatEntry) : Prop where
  sequence : entry.get 0 = UInt8.ofNat k ||| (if k = lfnCount name then 0x40 else 0)
  marked : entry.get 11 = 0x0f
  checksum : entry.get 13 = sum
  units : ∀ i (inside : i < 13), entry.readLe16 (lfnOffsets.get ⟨i, inside⟩) = lfnUnit name ((k - 1) * 13 + i)

/-- Entries `k` down to 1. -/
def LfnEntries (sum : UInt8) : Nat → List FatEntry → Prop
  | 0, entries => entries = []
  | k + 1, entries => ∃ entry rest, entries = entry :: rest ∧ LfnEntry name sum (k + 1) entry ∧
      LfnEntries sum k rest

/-- The correct set for a name whose short entry has the checksum `sum`. -/
def LfnSet (sum : UInt8) (entries : List FatEntry) : Prop :=
  LfnEntries name sum (lfnCount name) entries

end

/-- The loop over the characters of an entry, from index `out` of the name on. -/
theorem get_lfnDecodeChars (long : LongName name) (units : ∀ i (inside : i < offs.length),
      entry.readLe16 (offs.get ⟨i, inside⟩) = lfnUnit name (out + i)) :
    (lfnDecodeChars entry offs out b).get j =
      if out ≤ j ∧ j < out + offs.length ∧ j < name.length then name.getD j 0
      else if out ≤ j ∧ j < out + offs.length ∧ j = name.length then 0
      else b.get j := by
  have fits := long.fits
  induction offs generalizing out b with
  | nil =>
    rw [lfnDecodeChars, if_neg (by simp; omega), if_neg (by simp; omega)]
  | cons off rest ih =>
    have first := units 0 (by simp)
    simp only [List.get_eq_getElem, List.getElem_cons_zero, Nat.add_zero] at first
    have later : ∀ i (inside : i < rest.length),
        entry.readLe16 (rest.get ⟨i, inside⟩) = lfnUnit name (out + 1 + i) := by
      intro i inside
      have unit := units (i + 1) (by simpa using inside)
      rw [show out + 1 + i = out + (i + 1) by omega]
      simpa using unit
    unfold lfnDecodeChars
    rw [first, lfnUnit]
    by_cases inName : out < name.length
    · -- a character of the name
      obtain ⟨nonzero, small⟩ := long.ascii (name.getD out 0) (by
        rw [List.getD_eq_getElem _ _ inName]
        exact List.getElem_mem inName)
      have isAscii : (name.getD out 0).toNat < 0x80 := UInt8.lt_iff_toNat_lt.mp small
      have isSome : (name.getD out 0).toNat ≠ 0 := fun zero =>
        nonzero (UInt8.toNat_inj.mp zero)
      rw [if_pos inName, if_neg isSome, if_neg (by omega), if_neg (by omega), ih later,
        UInt8.ofNat_toNat, Buf.get_set]
      grind
    · rw [if_neg inName]
      by_cases atEnd : out = name.length
      · rw [if_pos atEnd, if_pos rfl, Buf.get_set]
        grind
      · grind

theorem LongName.count (long : LongName name) :
    0 < lfnCount name ∧ lfnCount name ≤ 5 ∧ (lfnCount name - 1) * 13 < name.length ∧
      name.length ≤ lfnCount name * 13 := by
  have some_ := List.length_pos_iff.mpr long.some_
  have fits := long.fits
  unfold lfnCount
  omega

theorem lfnSequence : ∀ k < 6, 0 < k → ∀ last : Bool,
    let first := UInt8.ofNat k ||| (if last then 0x40 else 0)
    first &&& 0x1f = UInt8.ofNat k ∧ (first &&& 0x40 ≠ 0 ↔ last) ∧ first ≠ 0 ∧ first ≠ 0xe5 := by
  decide

/-- The numbers of a set are among those that the decoder accepts. -/
theorem lfnOrders : ∀ total < 6, ∀ k < total, UInt8.ofNat (k + 1) ≠ 0 ∧ ¬ 5 < UInt8.ofNat (k + 1) ∧
    ¬ UInt8.ofNat total < UInt8.ofNat (k + 1) := by
  decide

section Set

variable {sum : UInt8}

/-- An entry of a set is neither the end mark nor deleted, and `order` is its number. -/
theorem LfnEntry.first (stored : LfnEntry name sum k entry) (low : 0 < k) (high : k < 6) :
    entry.get 0 &&& 0x1f = UInt8.ofNat k ∧ (entry.get 0 &&& 0x40 ≠ 0 ↔ k = lfnCount name) ∧
      entry.get 0 ≠ 0 ∧ entry.get 0 ≠ 0xe5 := by
  have facts := lfnSequence k high low (decide (k = lfnCount name))
  simpa [stored.sequence] using facts

/-- Entries behind entry `k` have been decoded; `before` is what the buffer held. -/
structure Decoding (name : Bytes) (sum : UInt8) (before : Buf 64) (k : Nat) (lfn : LfnState) : Prop where
  valid : lfn.valid
  present : lfn.present
  total : lfn.totalEntries = UInt8.ofNat (lfnCount name)
  seen : lfn.seenEntries = UInt8.ofNat (lfnCount name - k)
  checksum : lfn.checksum = sum
  chars : ∀ j, k * 13 ≤ j → j < name.length → lfn.name.get j = name.getD j 0
  behind : lfn.name.get name.length = if 13 ∣ name.length then before.get name.length else 0

theorem LfnEntry.get_decode (long : LongName name)
    (stored : LfnEntry name sum (k + 1) entry) (high : k + 1 < 6) (lfn : LfnState) (j : Nat) :
    (lfnAccept entry lfn).name.get j =
      if k * 13 ≤ j ∧ j < k * 13 + 13 ∧ j < name.length then name.getD j 0
      else if k * 13 ≤ j ∧ j < k * 13 + 13 ∧ j = name.length then 0
      else lfn.name.get j := by
  have order := (stored.first (Nat.succ_pos k) high).1
  have base : ((entry.get 0 &&& 0x1f).toNat - 1) * 13 = k * 13 := by
    rw [order, UInt8.toNat_ofNat_of_lt' (by show k + 1 < 256; omega)]
    rfl
  simp only [lfnAccept]
  rw [base]
  exact get_lfnDecodeChars long stored.units

/-- The first entry of a set starts the decoding anew, whatever the state. -/
theorem LfnEntry.begin (long : LongName name) (stored : LfnEntry name sum (lfnCount name) entry) :
    Decoding name sum lfn.name (lfnCount name - 1) (fat32LfnDecodeEntry entry lfn) := by
  obtain ⟨low, high, short, enough⟩ := long.count
  obtain ⟨order, last, -, -⟩ := stored.first low (by omega)
  obtain ⟨k, isSucc⟩ : ∃ k, lfnCount name = k + 1 := ⟨lfnCount name - 1, by omega⟩
  obtain ⟨nonzero, small, -⟩ := lfnOrders (lfnCount name) (by omega) k (by omega)
  rw [← isSucc] at nonzero small
  have decoded : fat32LfnDecodeEntry entry lfn = lfnAccept entry
      { fat32LfnReset lfn with
        totalEntries := UInt8.ofNat (lfnCount name), checksum := entry.get 13, valid := true } := by
    simp only [fat32LfnDecodeEntry, order, if_neg (not_or.mpr ⟨nonzero, small⟩),
      if_pos (last.mpr rfl)]
  rw [isSucc] at stored
  have chars := stored.get_decode long (by omega)
  rw [decoded]
  constructor
  · rfl
  · rfl
  · rfl
  · show (0 : UInt8) + 1 = _
    rw [isSucc, Nat.add_sub_cancel, Nat.add_sub_cancel_left]
    rfl
  · exact stored.checksum
  · intro j reached inside
    rw [chars, if_pos (by omega)]
  · rw [chars, if_neg (by omega)]
    by_cases whole : 13 ∣ name.length
    · rw [if_pos whole, if_neg (by omega)]
      exact Buf.get_set_other (by omega)
    · rw [if_neg whole, if_pos (by omega)]

theorem Decoding.next (long : LongName name)
    (decoding : Decoding name sum before (k + 1) lfn) (stored : LfnEntry name sum (k + 1) entry)
    (later : k + 1 < lfnCount name) : Decoding name sum before k (fat32LfnDecodeEntry entry lfn) := by
  obtain ⟨-, high, short, -⟩ := long.count
  obtain ⟨order, last, -, -⟩ := stored.first (Nat.succ_pos k) (by omega)
  obtain ⟨nonzero, small, within⟩ := lfnOrders (lfnCount name) (by omega) k (by omega)
  have accepted : ¬ (!lfn.valid ∨ lfn.totalEntries < UInt8.ofNat (k + 1) ∨ entry.get 13 ≠ lfn.checksum) := by
    rw [decoding.valid, decoding.total, decoding.checksum, stored.checksum]
    rintro (invalid | beyond | differs)
    · cases invalid
    · exact within beyond
    · exact differs rfl
  have notLast : ¬ entry.get 0 &&& 0x40 ≠ 0 := fun set => by
    have := last.mp set
    omega
  have decoded : fat32LfnDecodeEntry entry lfn = lfnAccept entry lfn := by
    simp only [fat32LfnDecodeEntry, order, if_neg (not_or.mpr ⟨nonzero, small⟩), if_neg notLast,
      if_neg accepted]
  have chars := stored.get_decode long (by omega) lfn
  rw [decoded]
  constructor
  · exact decoding.valid
  · rfl
  · exact decoding.total
  · show lfn.seenEntries + 1 = _
    rw [decoding.seen, show lfnCount name - k = lfnCount name - (k + 1) + 1 by omega, UInt8.ofNat_add]
    rfl
  · exact decoding.checksum
  · intro j reached inside
    rw [chars]
    split
    · rfl
    · rw [if_neg (by omega)]
      exact decoding.chars j (by omega) inside
  · rw [chars, if_neg (by omega), if_neg (by omega)]
    exact decoding.behind

theorem parseFat32Entry_long (stored : LfnEntry name sum k entry) (low : 0 < k) (high : k < 6) :
    parseFat32Entry parent entry st = some { st with lfn := fat32LfnDecodeEntry entry st.lfn } := by
  obtain ⟨-, -, nonzero, kept⟩ := stored.first low high
  simp [parseFat32Entry, nonzero, kept, stored.marked]

/-- What is left of a set is decoded, and the parser goes on behind it. -/
theorem parse_lfnEntries (long : LongName name) (parent : Bytes) (stored : LfnEntries name sum k set)
    (later : k < lfnCount name) (decoding : Decoding name sum before k st.lfn) (more : List FatEntry) :
    ∃ lfn, Decoding name sum before 0 lfn ∧
      parseFat32Entries parent (set ++ more) st = parseFat32Entries parent more { st with lfn} := by
  have high := long.count.2.1
  induction k generalizing set st with
  | zero =>
    cases stored
    exact ⟨st.lfn, decoding, rfl⟩
  | succ k ih =>
    obtain ⟨entry, rest, rfl, first, others⟩ := stored
    have next : Decoding name sum before k
        (FatParse.lfn { st with lfn := fat32LfnDecodeEntry entry st.lfn }) :=
      decoding.next long first later
    obtain ⟨lfn, done, parsed⟩ := ih others (by omega) next
    refine ⟨lfn, done, ?_⟩
    rw [List.cons_append, parseFat32Entries, parseFat32Entry_long first (by omega) (by omega)]
    exact parsed

theorem parse_lfnSet (long : LongName name) (parent : Bytes)
    (stored : LfnSet name sum set) (st : FatParse) (more : List FatEntry) :
    ∃ lfn, Decoding name sum st.lfn.name 0 lfn ∧
      parseFat32Entries parent (set ++ more) st = parseFat32Entries parent more { st with lfn} := by
  obtain ⟨low, high, -, -⟩ := long.count
  unfold LfnSet at stored
  obtain ⟨k, isSucc⟩ : ∃ k, lfnCount name = k + 1 := ⟨lfnCount name - 1, by omega⟩
  rw [isSucc] at stored
  obtain ⟨entry, rest, rfl, first, others⟩ := stored
  rw [← isSucc] at first
  have begun : Decoding name sum st.lfn.name (lfnCount name - 1)
      (FatParse.lfn { st with lfn := fat32LfnDecodeEntry entry st.lfn }) :=
    first.begin long
  rw [isSucc] at begun
  obtain ⟨lfn, done, parsed⟩ := parse_lfnEntries long parent others (by omega) begun more
  refine ⟨lfn, done, ?_⟩
  rw [List.cons_append, parseFat32Entries, parseFat32Entry_long first low (by omega)]
  exact parsed

/-! ## The short entry behind it -/

/-- The buffer begins with the name; what it is read as depends on the byte behind. -/
theorem bufferText_eq_iff (long : LongName name) (chars : ∀ j < name.length, b.get j = name.getD j 0) :
    bufferText b = name ↔ b.get name.length = 0 ∨ name.length = 63 := by
  have fits := long.fits
  have starts : b.slice 0 64 = name ++ b.slice name.length (64 - name.length) := by
    apply List.ext_getElem
    · simp
      omega
    · intro i left right
      simp only [Buf.length_slice] at left
      by_cases inName : i < name.length
      · rw [List.getElem_append_left inName]
        have char := chars i inName
        rw [List.getD_eq_getElem _ _ inName] at char
        simpa [Buf.slice] using char
      · rw [List.getElem_append_right (by omega)]
        simp only [Buf.slice, List.getElem_map, List.getElem_range]
        congr 1
        omega
  have rest : b.slice name.length (64 - name.length)
      = b.get name.length :: b.slice (name.length + 1) (63 - name.length) := by
    rw [show 64 - name.length = 63 - name.length + 1 by omega, Buf.slice, List.range_succ_eq_map]
    simp [Buf.slice, Nat.add_comm, Nat.add_left_comm]
  have kept : ∀ c ∈ name, (c != 0) := fun c member => by simpa using (long.ascii c member).1
  unfold bufferText copyLimited
  rw [starts, rest, List.takeWhile_append_of_pos kept]
  constructor
  · intro same
    by_contra stale
    obtain ⟨nonzero, room⟩ := not_or.mp stale
    have more : ((b.get name.length :: b.slice (name.length + 1) (63 - name.length)).takeWhile
        fun c => c != 0) ≠ [] := by
      rw [List.takeWhile_cons_of_pos (by simpa using nonzero)]
      exact List.cons_ne_nil _ _
    have longer := congrArg List.length same
    rw [List.length_take, List.length_append] at longer
    have := List.length_pos_iff.mpr more
    omega
  · rintro (zero | full)
    · rw [List.takeWhile_cons_of_neg (by simpa using zero), List.append_nil]
      exact List.take_of_length_le (by omega)
    · rw [show 64 - 1 = name.length by omega, List.take_left]

/-- The text of a decoded name: the name, unless a stale byte stands behind it. -/
theorem Decoding.text_iff (long : LongName name) (decoding : Decoding name sum before 0 lfn) :
    bufferText lfn.name = name ↔ (13 ∣ name.length → before.get name.length = 0) := by
  have chars : ∀ j < name.length, lfn.name.get j = name.getD j 0 :=
    fun j inside => decoding.chars j (by omega) inside
  rw [bufferText_eq_iff long chars, decoding.behind]
  by_cases whole : 13 ∣ name.length
  · have room : name.length ≠ 63 := by omega
    simp [room]
  · simp [whole]

theorem bufferText_ne_nil (first : b.get 0 ≠ 0) : bufferText b ≠ [] := by
  have starts : b.slice 0 64 = b.get 0 :: b.slice 1 63 := by
    rw [Buf.slice, List.range_succ_eq_map]
    simp [Buf.slice, Nat.add_comm]
  unfold bufferText copyLimited
  rw [starts, List.takeWhile_cons_of_pos (by simpa using first)]
  exact List.cons_ne_nil _ _

theorem copyLimited_bufferText : copyLimited 64 (bufferText b) = bufferText b := by
  simp [copyLimited, bufferText, List.take_take]

theorem Decoding.first (long : LongName name) (decoding : Decoding name sum before 0 lfn) : lfn.name.get 0 ≠ 0 := by
  have some_ := List.length_pos_iff.mpr long.some_
  rw [decoding.chars 0 (by omega) some_, List.getD_eq_getElem _ _ some_]
  exact (long.ascii _ (List.getElem_mem some_)).1

theorem Decoding.entryName (long : LongName name)
    (decoding : Decoding name (fat32ShortNameChecksum short) before 0 lfn) :
    fat32EntryName short lfn = bufferText lfn.name := by
  unfold fat32EntryName longNameTaken
  simp [decoding.valid, decoding.present, decoding.seen, decoding.total, decoding.checksum,
    decoding.first long]

end Set

/-- The entries of the sectors that can be read, `left` of them from `lba` on. -/
def readableEntries (d : Device) : Nat → Nat → List FatEntry
  | 0, _ => []
  | left + 1, lba =>
    match blockRead d lba with
    | none => []
    | some sector => sectorEntries sector ++ readableEntries d left (lba + 1)

theorem parseFat32Entries_append (st : FatParse) :
    parseFat32Entries parent (first ++ second) st =
      match parseFat32Entries parent first st with
      | (st, true) => (st, true)
      | (st, false) => parseFat32Entries parent second st := by
  induction first generalizing st with
  | nil => rfl
  | cons entry rest ih =>
    simp only [List.cons_append, parseFat32Entries]
    cases parseFat32Entry parent entry st with
    | none => rfl
    | some st => exact ih st

theorem parseFat32Sectors_eq (left lba : Nat) (st : FatParse) :
    parseFat32Sectors d parent left lba st
      = (parseFat32Entries parent (readableEntries d left lba) st).1 := by
  induction left generalizing lba st with
  | zero => rfl
  | succ left ih =>
    simp only [parseFat32Sectors, readableEntries]
    cases blockRead d lba with
    | none => rfl
    | some sector =>
      simp only
      rw [parseFat32Entries_append]
      obtain ⟨⟨st', stop⟩, parsed⟩ : ∃ r, parseFat32Entries parent (sectorEntries sector) st = r := ⟨_, rfl⟩
      rw [parsed]
      cases stop with
      | true => rfl
      | false => exact ih (lba + 1) st'

/-- What one entry does to the table: nothing, or what `add_exfat_root_entry` does. -/
theorem parseFat32Entry_entries (parsed : parseFat32Entry parent entry st = some st') :
    st'.entries = st.entries ∨ ∃ name size firstCluster attributes,
      st'.entries = st.entries ++
        (addExfatRootEntry st.entries parent name size firstCluster attributes 0).toList := by
  simp only [parseFat32Entry] at parsed
  split at parsed
  · cases parsed
  · split at parsed
    · cases parsed
      exact .inl rfl
    · split at parsed
      · cases parsed
        exact .inl rfl
      · split at parsed
        · cases parsed
          exact .inl rfl
        · cases parsed
          exact .inr ⟨_, _, _, _, rfl⟩

theorem parseFat32Entries_grows (parent : Bytes) (slots : List FatEntry) (st : FatParse) :
    st.entries <+: (parseFat32Entries parent slots st).1.entries := by
  induction slots generalizing st with
  | nil => exact List.prefix_rfl
  | cons entry rest ih =>
    simp only [parseFat32Entries]
    split
    · exact List.prefix_rfl
    · rename_i st' parsed
      refine List.IsPrefix.trans ?_ (ih st')
      obtain same | ⟨_, _, _, _, added⟩ := parseFat32Entry_entries parsed
      · exact same ▸ List.prefix_rfl
      · rw [added]
        exact List.prefix_append _ _

theorem parseFat32Entries_full (full : maxRootEntries ≤ st.entries.length) :
    (parseFat32Entries parent slots st).1.entries = st.entries := by
  induction slots generalizing st with
  | nil => rfl
  | cons entry rest ih =>
    simp only [parseFat32Entries]
    split
    · rfl
    · rename_i st' parsed
      have same : st'.entries = st.entries := by
        obtain same | ⟨_, _, _, _, added⟩ := parseFat32Entry_entries parsed
        · exact same
        · rw [added, addExfatRootEntry, if_pos (.inl full)]
          exact List.append_nil _
      rw [ih (by rw [same]; exact full), same]

theorem parseFat32Entry_short (valid : fat32EntryValid short) :
    parseFat32Entry parent short st = some
      { lfn := fat32LfnReset st.lfn
        entries := st.entries ++ (addExfatRootEntry st.entries parent (fat32EntryName short st.lfn)
          (short.readLe32 28) (short.readLe16 20 * 2 ^ 16 + short.readLe16 26)
          (short.get 11).toNat 0).toList } := by
  have facts := valid
  simp only [fat32EntryValid, Bool.and_eq_true, bne_iff_ne] at facts
  obtain ⟨⟨⟨⟨⟨nonzero, kept⟩, -⟩, -⟩, notLong⟩, -⟩ := facts
  simp [parseFat32Entry, nonzero, kept, notLong, valid]

section Added

variable {m : Fat32Mount} {d : Device} {stack : LfnState} {cluster lba : Nat} {entries : List RootEntry}
  {pre post : List FatEntry}

/-- What the parser holds when it comes to the entries behind `pre`; the Boolean says that it has met the
    end mark before. -/
def fatParsedBefore (parent : Bytes) (stack : LfnState) (entries : List RootEntry) (pre : List FatEntry) :
    FatParse × Bool :=
  parseFat32Entries parent pre ⟨fat32LfnReset stack, entries⟩

/-- The next entry that the parser adds behind `pre` is the file of the short entry, under that name. -/
def AddedAs (m : Fat32Mount) (d : Device) (parent : Bytes) (stack : LfnState) (cluster : Nat)
    (entries : List RootEntry) (pre : List FatEntry) (short : FatEntry) (name : Bytes) : Prop :=
  ∃ e, (parseFat32DirectoryCluster m d parent stack cluster entries)[
      (fatParsedBefore parent stack entries pre).1.entries.length]? = some e ∧
    e.name = name ∧ e.size = short.readLe32 28 ∧
    e.firstCluster = short.readLe16 20 * 2 ^ 16 + short.readLe16 26

/-- The parser comes to the set, the table has room, and no stale byte stands behind the name. -/
def LongNameReadable (parent : Bytes) (stack : LfnState) (entries : List RootEntry) (pre : List FatEntry)
    (name : Bytes) : Prop :=
  (fatParsedBefore parent stack entries pre).2 = false ∧
    (fatParsedBefore parent stack entries pre).1.entries.length < maxRootEntries ∧
    (13 ∣ name.length → (fatParsedBefore parent stack entries pre).1.lfn.name.get name.length = 0)

/-- The name of a correct set is the name of the entry that is added just if it is readable. -/
theorem long_name_added_iff (located : m.clusterLba cluster = some lba)
    (contents : readableEntries d m.fat32.sectorsPerCluster lba = pre ++ (set ++ short :: post))
    (long : LongName name) (stored : LfnSet name (fat32ShortNameChecksum short) set)
    (valid : fat32EntryValid short = true) :
    AddedAs m d parent stack cluster entries pre short name ↔
      LongNameReadable parent stack entries pre name := by
  have parsed : parseFat32DirectoryCluster m d parent stack cluster entries
      = (parseFat32Entries parent (pre ++ (set ++ short :: post)) ⟨fat32LfnReset stack, entries⟩).1.entries := by
    simp only [parseFat32DirectoryCluster, located]
    rw [parseFat32Sectors_eq, contents]
  unfold AddedAs LongNameReadable
  rw [parsed, parseFat32Entries_append]
  generalize before_eq : parseFat32Entries parent pre ⟨fat32LfnReset stack, entries⟩ = before
  obtain ⟨before, stopped⟩ := before
  rw [fatParsedBefore, before_eq]
  cases stopped with
  | true =>
    simp
  | false =>
    obtain ⟨lfn, decoding, rest⟩ := parse_lfnSet long parent stored before (short :: post)
    simp only [rest, parseFat32Entries, parseFat32Entry_short valid, decoding.entryName long]
    by_cases room : before.entries.length < maxRootEntries
    · -- the file is added, and what follows does not change its entry
      rw [addExfatRootEntry, if_neg (not_or.mpr ⟨Nat.not_le.mpr room, bufferText_ne_nil (decoding.first long)⟩),
        copyLimited_bufferText, Option.toList_some]
      obtain ⟨more, grown⟩ := parseFat32Entries_grows parent post
        ⟨fat32LfnReset lfn, before.entries ++ [{
          parent := copyLimited 64 parent
          name := bufferText lfn.name
          size := short.readLe32 28
          capacity := short.readLe32 28
          firstCluster := short.readLe16 20 * 2 ^ 16 + short.readLe16 26
          attributes := (short.get 11).toNat
          isDir := (short.get 11).toNat &&& 0x10 != 0
          writable := false }]⟩
      rw [← grown, List.append_assoc, List.getElem?_append_right (Nat.le_refl _), Nat.sub_self]
      simp only [List.cons_append, List.getElem?_cons_zero, Option.some.injEq, exists_eq_left', and_true, room,
        true_and]
      exact decoding.text_iff long
    · rw [parseFat32Entries_full]
      · simp [addExfatRootEntry, room]
      · simp only [List.length_append]
        omega

end Added

/-- Entry `k` of the set for a name, as `lfn_entry` of `scripts/make_test_disk.pl` writes it. -/
def lfnEntryOf (name : Bytes) (sum : UInt8) (k : Nat) : FatEntry :=
  let first := UInt8.ofNat k ||| (if k = lfnCount name then 0x40 else 0)
  (List.finRange 13).foldl
    (fun entry i => entry.write (lfnOffsets.get i) (le16 (lfnUnit name ((k - 1) * 13 + i))))
    (((Buf.zero.set 0 first).set 11 0x0f).set 13 sum)

/-- `lfn_entries`: entries `k` down to 1. -/
def lfnEntriesOf (name : Bytes) (sum : UInt8) : Nat → List FatEntry
  | 0 => []
  | k + 1 => lfnEntryOf name sum (k + 1) :: lfnEntriesOf name sum k

def shortEntryOf (name : Bytes) : FatEntry := ((Buf.zero.write 0 name).set 26 3).set 28 5

/-- `ONE     TXT` and `TWO     TXT`. -/
def shortOne : FatEntry :=
  shortEntryOf [0x4f, 0x4e, 0x45, 0x20, 0x20, 0x20, 0x20, 0x20, 0x54, 0x58, 0x54]

def shortTwo : FatEntry :=
  shortEntryOf [0x54, 0x57, 0x4f, 0x20, 0x20, 0x20, 0x20, 0x20, 0x54, 0x58, 0x54]

/-- `abcdefghijklmno` has 15 characters, `ABCDEFGHIJKLM` has 13. -/
def longOne : Bytes := (List.range 15).map fun i => UInt8.ofNat (0x61 + i)

def longTwo : Bytes := (List.range 13).map fun i => UInt8.ofNat (0x41 + i)

theorem longName_longOne : LongName longOne := ⟨by decide, by decide, by decide +kernel⟩

theorem longName_longTwo : LongName longTwo := ⟨by decide, by decide, by decide +kernel⟩

def setOne : List FatEntry := lfnEntriesOf longOne (fat32ShortNameChecksum shortOne) 2

def setTwo : List FatEntry := lfnEntriesOf longTwo (fat32ShortNameChecksum shortTwo) 1

set_option maxRecDepth 8000 in
theorem lfnSet_setOne : LfnSet longOne (fat32ShortNameChecksum shortOne) setOne :=
  ⟨_, _, rfl, ⟨by decide, by decide, by decide, by decide⟩,
    _, _, rfl, ⟨by decide, by decide, by decide, by decide⟩, rfl⟩

set_option maxRecDepth 8000 in
theorem lfnSet_setTwo : LfnSet longTwo (fat32ShortNameChecksum shortTwo) setTwo :=
  ⟨_, _, rfl, ⟨by decide, by decide, by decide, by decide⟩, rfl⟩

/-- A directory with the file of 15 characters and then the one of 13. -/
def twoLongNames : List FatEntry :=
  setOne ++ [shortOne] ++ (setTwo ++ shortTwo :: List.replicate 11 Buf.zero)

def sectorOfEntries (slots : List FatEntry) : Sector :=
  ⟨fun i => (slots.getD (i / 32) Buf.zero).get (i % 32)⟩

theorem sectorEntries_of (full : slots.length = 16) : sectorEntries (sectorOfEntries slots) = slots := by
  apply List.ext_getElem
  · simp [sectorEntries, full]
  · intro k left right
    apply Buf.ext_get
    intro i inside
    have whole : k * 32 + i < 512 := by omega
    have slot : (k * 32 + i) / 32 = k := by omega
    have offset : i % 32 = i := Nat.mod_eq_of_lt inside
    simp [sectorEntries, sectorOfEntries, Buf.get, inside, whole, slot, offset, right]

/-- A volume of two clusters of one sector each; the root directory is in the first. -/
def fatVolume : Fat32Mount where
  blockSize := 512
  fat32 :=
    { present := true, bytesPerSector := 512, sectorsPerCluster := 1, reservedSectors := 1,
      numberOfFats := 1, totalSectors := 4, fatSizeSectors := 1, rootDirCluster := 2 }

def fatDevice : Device where
  blockCount := 4
  bounded := by decide
  writable := false
  fault _ := false
  data := Function.update (fun _ => Buf.zero) 2 (sectorOfEntries twoLongNames)

theorem fatDevice_contents : readableEntries fatDevice 1 2 = twoLongNames := by
  have read : blockRead fatDevice 2 = some (sectorOfEntries twoLongNames) := rfl
  simp only [readableEntries, read]
  rw [sectorEntries_of rfl, List.append_nil]

def cleanStack : LfnState := ⟨Buf.zero, 0, 0, 0, false, false⟩

/-- The first name is read as it is. -/
theorem long_name_added_one : AddedAs fatVolume fatDevice rootPath cleanStack 2 [] [] shortOne longOne := by
  have located : fatVolume.clusterLba 2 = some 2 := rfl
  have contents : readableEntries fatDevice fatVolume.fat32.sectorsPerCluster 2
      = [] ++ (setOne ++ shortOne :: (setTwo ++ shortTwo :: List.replicate 11 Buf.zero)) := by
    rw [List.nil_append]
    exact fatDevice_contents
  have valid : fat32EntryValid shortOne := by decide +kernel
  apply (long_name_added_iff located contents longName_longOne lfnSet_setOne valid).mpr
  exact ⟨rfl, by decide, by decide⟩

theorem twoLongNames_parsed :
    (parseFat32DirectoryCluster fatVolume fatDevice rootPath cleanStack 2 []).map RootEntry.name
        = [longOne, longTwo ++ [0x6e, 0x6f]] ∧
      (fatParsedBefore rootPath cleanStack [] (setOne ++ [shortOne])).1.entries.length = 1 := by
  decide +kernel

/-- The second is not: what the first left in the buffer is taken for its end. -/
theorem long_name_mixed :
    ∃ (m : Fat32Mount) (d : Device) (cluster lba : Nat) (pre set post : List FatEntry) (short : FatEntry)
      (name : Bytes), m.clusterLba cluster = some lba ∧
      readableEntries d m.fat32.sectorsPerCluster lba = pre ++ (set ++ short :: post) ∧
      LongName name ∧ LfnSet name (fat32ShortNameChecksum short) set ∧ fat32EntryValid short = true ∧
      ¬ AddedAs m d rootPath cleanStack cluster [] pre short name := by
  refine ⟨fatVolume, fatDevice, 2, 2, _, setTwo, _, shortTwo, longTwo, rfl, fatDevice_contents,
    longName_longTwo, lfnSet_setTwo, by decide +kernel, ?_⟩
  rintro ⟨e, found, isName, -⟩
  obtain ⟨names, count⟩ := twoLongNames_parsed
  rw [count] at found
  have second := congrArg (fun names => names[1]?) names
  simp only [List.getElem?_map, found, Option.map_some, isName] at second
  exact absurd second (by decide)

end TangPingOS
