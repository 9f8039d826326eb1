import TangPingOS.Exfat.Plan
import TangPingOS.Fat32.Directory

/-! # The tree that a mount finds

A mount parses the root directory and then, going through the table that it fills, the
directories in it. Whatever the medium says about them, every file is entered below a
directory that was entered before it, and the walk ends with the table.
-/

namespace TangPingOS

open Lib

variable {st : BitmapScan} {name parent path : Bytes} {entries : List RootEntry}
  {fuel i k lba left remaining size : Nat} {next : Nat × BitmapScan} {e : RootEntry}

/-- Every file is in the root directory or in a directory further up in the table. -/
def Treelike (entries : List RootEntry) : Prop :=
  ∀ (j : Nat) (e : RootEntry), entries[j]? = some e → e.parent = rootPath ∨
    ∃ (i : Nat) (dir : RootEntry), i < j ∧ entries[i]? = some dir ∧ dir.isDir ∧
      joinChildPath dir.parent dir.name = some e.parent

/-- A table that holds a tree of files. -/
structure TableOk (entries : List RootEntry) : Prop where
  few : entries.length ≤ maxRootEntries
  tree : Treelike entries

theorem tableOk_nil : TableOk [] := ⟨Nat.zero_le _, nofun⟩

theorem TableOk.concat (ok : TableOk entries) (room : entries.length < maxRootEntries)
    (above : e.parent = rootPath ∨ ∃ (i : Nat) (dir : RootEntry), entries[i]? = some dir ∧ dir.isDir ∧
      joinChildPath dir.parent dir.name = some e.parent) : TableOk (entries ++ [e]) where
  few := by
    rw [List.length_append]
    exact room
  tree := by
    have early {i : Nat} {dir : RootEntry} (there : entries[i]? = some dir) :
        i < entries.length ∧ (entries ++ [e])[i]? = some dir := by
      have inside := (List.getElem?_eq_some_iff.mp there).1
      exact ⟨inside, by rw [List.getElem?_append_left inside, there]⟩
    intro j e' found
    rcases Nat.lt_or_ge j entries.length with old | new
    · rw [List.getElem?_append_left old] at found
      rcases ok.tree j e' found with isRoot | ⟨i, dir, before, there, isDir, joined⟩
      · exact .inl isRoot
      · exact .inr ⟨i, dir, before, (early there).2, isDir, joined⟩
    · rw [List.getElem?_append_right new, List.getElem?_singleton] at found
      split at found
      · cases found
        rcases above with isRoot | ⟨i, dir, there, isDir, joined⟩
        · exact .inl isRoot
        · exact .inr ⟨i, dir, by have := (early there).1; omega, (early there).2, isDir, joined⟩
      · cases found

theorem addExfatRootEntry_spec
    (added : addExfatRootEntry entries parent name size firstCluster attributes flags = some e) :
    entries.length < maxRootEntries ∧ e.parent = copyLimited 64 parent := by
  unfold addExfatRootEntry at added
  split at added
  · cases added
  · rename_i accepted
    cases added
    exact ⟨Nat.not_le.mp fun full => accepted (.inl full), rfl⟩

theorem keptBy_root : KeptBy rootPath TableOk := by
  intro entries name size firstCluster attributes flags e ok added
  obtain ⟨room, parent⟩ := addExfatRootEntry_spec added
  exact ok.concat room (.inl parent)

theorem keptBy_child {b : Bool} (walked : ¬(!dir.isDir || b)) (joined : joinChildPath dir.parent dir.name = some path) :
    KeptBy path fun entries => TableOk entries ∧ entries[i]? = some dir := by
  rintro entries name size firstCluster attributes flags e ⟨ok, there⟩ added
  have isDir : dir.isDir := by
    simp only [Bool.or_eq_true, Bool.not_eq_true', not_or, Bool.not_eq_false] at walked
    exact walked.1
  obtain ⟨room, parent⟩ := addExfatRootEntry_spec added
  have whole : copyLimited 64 path = path := List.take_of_length_le (joinChildPath_length joined).2
  rw [whole] at parent
  refine ⟨ok.concat room (.inr ⟨i, dir, there, isDir, parent ▸ joined⟩), ?_⟩
  rw [List.getElem?_append_left (List.getElem?_eq_some_iff.mp there).1, there]

/-- A table that is not too long has been gone through when as many rounds are over. -/
theorem TableOk.getElem?_none (ok : TableOk entries) (past : maxRootEntries ≤ i) : entries[i]? = none :=
  List.getElem?_eq_none (ok.few.trans past)

section Exfat

variable (m : Mount) (d : Device)

theorem parseSubdirectories_ok (fuel i : Nat) {st} (ok : TableOk st.entries) :
    TableOk (parseSubdirectories m d fuel i st).entries := by
  induction fuel generalizing i st with
  | zero => exact ok
  | succ fuel ih =>
    simp only [parseSubdirectories]
    split
    · exact ok
    rename_i dir there
    split
    · exact ih _ ok
    rename_i walked
    split
    · exact ih _ ok
    · rename_i path joined
      exact ih _ (parseExfatDirectoryChain_keeps (keptBy_child walked joined) ⟨ok, there⟩).1

theorem parseSubdirectories_more (enough : maxRootEntries ≤ i + fuel) {st} (ok : TableOk st.entries) :
    parseSubdirectories m d (fuel + more) i st = parseSubdirectories m d fuel i st := by
  induction fuel generalizing i st with
  | zero =>
    cases more with
    | zero => rfl
    | succ more => simp only [parseSubdirectories, ok.getElem?_none (i := i) enough]
  | succ fuel ih =>
    rw [Nat.succ_add]
    simp only [parseSubdirectories]
    split
    · rfl
    rename_i dir there
    split
    · exact ih (by omega) ok
    rename_i walked
    split
    · exact ih (by omega) ok
    · rename_i path joined
      exact ih (by omega)
        (parseExfatDirectoryChain_keeps (keptBy_child walked joined) ⟨ok, there⟩).1

theorem parseSlots_more (enough : 16 ≤ slot + fuel) (st : DirParse) :
    parseSlots sector parent (fuel + more) slot st = parseSlots sector parent fuel slot st := by
  induction fuel generalizing slot st with
  | zero =>
    cases more with
    | zero => rfl
    | succ more => simp [parseSlots, show 16 ≤ slot from enough]
  | succ fuel ih =>
    rw [Nat.succ_add]
    simp only [parseSlots]
    split
    · rfl
    split
    · rfl
    split
    · exact ih (by omega) _
    split
    · exact ih (by omega) _
    · exact ih (by omega) _

theorem BitmapScan.bitIndex_step (st : BitmapScan) (used : Bool) : (st.step used).bitIndex = st.bitIndex + 1 := by
  cases used <;> rfl

theorem scanBits_moves (bit left : Nat) (st : BitmapScan) :
    st.bitIndex ≤ (scanBits count value bit left st).bitIndex := by
  induction left generalizing bit st with
  | zero => exact Nat.le_refl _
  | succ left ih =>
    rw [scanBits]
    split
    · exact (by rw [st.bitIndex_step]; omega : st.bitIndex ≤ _).trans (ih (bit + 1) _)
    · exact Nat.le_refl _

theorem scanBytes_moves (byteIndex left : Nat) (st : BitmapScan) :
    st.bitIndex ≤ (scanBytes count s byteIndex left st).bitIndex := by
  induction left generalizing byteIndex st with
  | zero => exact Nat.le_refl _
  | succ left ih =>
    rw [scanBytes]
    split
    · exact (scanBits_moves 0 8 st).trans (ih (byteIndex + 1) _)
    · exact Nat.le_refl _

theorem scanBytes_counts (some_ : 0 < left) (inside : st.bitIndex < count) :
    st.bitIndex < (scanBytes count s byteIndex left st).bitIndex := by
  obtain ⟨left, rfl⟩ := Nat.exists_eq_add_one_of_ne_zero some_.ne'
  rw [scanBytes, if_pos inside]
  apply Nat.lt_of_lt_of_le _ (scanBytes_moves (byteIndex + 1) left _)
  rw [scanBits, if_pos inside]
  apply Nat.lt_of_lt_of_le _ (scanBits_moves 1 7 _)
  rw [st.bitIndex_step]
  exact Nat.lt_succ_self _

theorem scanBitmapSectors_moves
    (ran : scanBitmapSectors m d lba k left remaining st = some next) : st.bitIndex ≤ next.2.bitIndex := by
  induction left generalizing k remaining st with
  | zero =>
    cases ran
    exact Nat.le_refl _
  | succ left ih =>
    rw [scanBitmapSectors] at ran
    split at ran
    · obtain ⟨s, _, rest⟩ := Option.bind_eq_some_iff.mp ran
      exact (scanBytes_moves 0 _ st).trans (ih rest)
    · cases ran
      exact Nat.le_refl _

theorem scanBitmapSectors_counts
    (some_ : 0 < left) (more : 0 < remaining) (inside : st.bitIndex < m.exfat.clusterCount)
    (ran : scanBitmapSectors m d lba k left remaining st = some next) : st.bitIndex < next.2.bitIndex := by
  obtain ⟨left, rfl⟩ := Nat.exists_eq_add_one_of_ne_zero some_.ne'
  rw [scanBitmapSectors, if_pos ⟨more, inside⟩] at ran
  obtain ⟨s, _, rest⟩ := Option.bind_eq_some_iff.mp ran
  exact Nat.lt_of_lt_of_le (scanBytes_counts (by omega) inside) (scanBitmapSectors_moves m d rest)

/-- Every round over the clusters of the bitmap counts a bit. -/
theorem scanBitmapClusters_more (positive : m.sectorsPerCluster ≠ 0)
    (enough : m.exfat.clusterCount ≤ st.bitIndex + fuel) :
    scanBitmapClusters m d (fuel + more) k remaining st = scanBitmapClusters m d fuel k remaining st := by
  induction fuel generalizing k remaining st with
  | zero =>
    cases more with
    | zero => rfl
    | succ more =>
      have past : ¬ (0 < remaining ∧ st.bitIndex < m.exfat.clusterCount) := fun goes => Nat.not_lt.mpr enough goes.2
      simp [scanBitmapClusters, past]
  | succ fuel ih =>
    rw [Nat.succ_add]
    simp only [scanBitmapClusters]
    split
    · rename_i goes
      apply Option.bind_congr
      intro cluster _
      split
      · rfl
      · apply Option.bind_congr
        intro next ran
        have counts := scanBitmapSectors_counts m d (Nat.pos_of_ne_zero positive) goes.1 goes.2 ran
        exact ih (by omega)
    · rfl

def parsedRoot : DirParse :=
  parseExfatDirectoryChain m d rootPath m.exfat.rootDirCluster 0
    { bitmap := m.exfat.allocationBitmap, entries := [] }

theorem parsedRoot_ok : TableOk (parsedRoot m d).entries :=
  parseExfatDirectoryChain_keeps keptBy_root tableOk_nil

theorem parseExfatVolume_ok : TableOk (parseExfatVolume m d).2 :=
  parseSubdirectories_ok m d maxRootEntries 0 (parsedRoot_ok m d)

theorem refreshExfatTestFileSize_parent {e' d d'}
    (refreshed : refreshExfatTestFileSize m d e size = (d', some e')) : e'.parent = e.parent := by
  unfold refreshExfatTestFileSize at refreshed
  repeat' split at refreshed
  all_goals cases refreshed
  rfl

/-- The file that a mount creates is entered like any other. -/
theorem enterNewFile_ok (ok : TableOk entries) : TableOk (enterNewFile m entries d).rootEntries := by
  unfold enterNewFile
  split
  · exact ok
  · rename_i e added
    obtain ⟨room, parent⟩ := addExfatRootEntry_spec added
    dsimp only
    split
    · exact ok.concat room (.inl parent)
    · rename_i refreshed
      have same := refreshExfatTestFileSize_parent _ refreshed
      exact ok.concat room (.inl (same.trans parent))

theorem planExfatCreateTransaction_ok (ok : TableOk fs.rootEntries) :
    TableOk (planExfatCreateTransaction m fs).2.rootEntries := by
  simp only [planExfatCreateTransaction, commitExfatCreateTransaction]
  split
  · exact ok
  split
  · exact ok
  split
  · exact ok
  split
  · exact ok
  · exact enterNewFile_ok _ _ ok

theorem parseExfatRootDirectory_ok : TableOk (parseExfatRootDirectory m d).2.rootEntries :=
  planExfatCreateTransaction_ok (parseExfatVolume m d).1 (parseExfatVolume_ok m d)

end Exfat

section Fat32

variable (m : Fat32Mount) (d : Device) {P : List RootEntry → Prop} (kept : KeptBy parent P)

include kept in
theorem parseFat32Entries_keeps (entries : List FatEntry) {st : FatParse} (holds : P st.entries) :
    P (parseFat32Entries parent entries st).1.entries := by
  induction entries generalizing st with
  | nil => exact holds
  | cons entry rest ih =>
    rw [parseFat32Entries]
    split
    · exact holds
    · rename_i st' parsed
      apply ih
      unfold parseFat32Entry at parsed
      split at parsed
      · cases parsed
      split at parsed
      · cases parsed
        exact holds
      split at parsed
      · cases parsed
        exact holds
      split at parsed
      · cases parsed
        exact holds
      · cases parsed
        exact kept.add holds _ _ _ _ _

include kept in
theorem parseFat32Sectors_keeps (left lba : Nat) {st : FatParse} (holds : P st.entries) :
    P (parseFat32Sectors d parent left lba st).entries := by
  induction left generalizing lba st with
  | zero => exact holds
  | succ left ih =>
    rw [parseFat32Sectors]
    split
    · exact holds
    · rename_i sector _
      have parsed := parseFat32Entries_keeps kept (sectorEntries sector) holds
      split
      · rename_i ended
        rw [ended] at parsed
        exact parsed
      · rename_i goes
        rw [goes] at parsed
        exact ih _ parsed

include kept in
theorem parseFat32DirectoryChain_keeps (stack : Nat → LfnState) (guard cluster : Nat)
    (holds : P entries) : P (parseFat32DirectoryChain m d parent stack guard cluster entries) := by
  induction guard generalizing cluster entries with
  | zero => exact holds
  | succ guard ih =>
    have parsed : P (parseFat32DirectoryCluster m d parent (stack guard) cluster entries) := by
      unfold parseFat32DirectoryCluster
      split
      · exact holds
      · exact parseFat32Sectors_keeps d kept _ _ holds
    simp only [parseFat32DirectoryChain]
    split
    · exact parsed
    split
    · exact parsed
    · exact ih _ parsed

variable (stack : Nat → Nat → LfnState)

include stack

theorem parseFat32Subdirectories_ok (left i : Nat)
    (ok : TableOk entries) : TableOk (parseFat32Subdirectories m d stack left i entries) := by
  induction left generalizing i entries with
  | zero => exact ok
  | succ left ih =>
    rw [parseFat32Subdirectories]
    split
    · exact ok
    rename_i dir there
    split
    · exact ih _ ok
    rename_i walked
    split
    · exact ih _ ok
    · rename_i path joined
      exact ih _ (parseFat32DirectoryChain_keeps m d (keptBy_child walked joined) _ _ _ ⟨ok, there⟩).1

theorem parseFat32Subdirectories_more (enough : maxRootEntries ≤ i + left) (ok : TableOk entries) :
    parseFat32Subdirectories m d stack (left + more) i entries =
      parseFat32Subdirectories m d stack left i entries := by
  induction left generalizing i entries with
  | zero =>
    cases more with
    | zero => rfl
    | succ more => simp only [parseFat32Subdirectories, ok.getElem?_none (i := i) enough]
  | succ left ih =>
    rw [Nat.succ_add, parseFat32Subdirectories, parseFat32Subdirectories]
    split
    · rfl
    rename_i dir there
    split
    · exact ih (by omega) ok
    rename_i walked
    split
    · exact ih (by omega) ok
    · rename_i path joined
      exact ih (by omega)
        (parseFat32DirectoryChain_keeps m d (keptBy_child walked joined) _ _ _ ⟨ok, there⟩).1

def parsedFat32Root (stack : Nat → Nat → LfnState) : List RootEntry :=
  parseFat32DirectoryChain m d rootPath (stack 0) m.clusterCount m.fat32.rootDirCluster []

theorem parsedFat32Root_ok : TableOk (parsedFat32Root m d stack) :=
  parseFat32DirectoryChain_keeps m d keptBy_root _ _ _ tableOk_nil

end Fat32

/-- The loops of an exFAT mount that no counter bounds are over after the rounds they are given: those
    over the slots of a sector, over the growing table and over the clusters of the bitmap. -/
structure ExfatLoopsEnd (m : Mount) (d : Device) : Prop where
  slots : ∀ sector parent st more,
    parseSlots sector parent (16 + more) 0 st = parseExfatDirectorySector sector parent st
  table : ∀ more, parseSubdirectories m d (maxRootEntries + more) 0 (parsedRoot m d) =
    parseSubdirectories m d maxRootEntries 0 (parsedRoot m d)
  bitmap : ∀ (found : Mount) more, found.sectorsPerCluster ≠ 0 →
    scanBitmapClusters found d (found.exfat.clusterCount + more) 0 found.exfat.allocationBitmap.size {} =
      scanBitmapClusters found d found.exfat.clusterCount 0 found.exfat.allocationBitmap.size {}

/-- Mounts of every medium end, with a tree of at most 32 files. -/
theorem mounts_end_with_tree (m : Mount) (fat : Fat32Mount) (d : Device) (stack : Nat → Nat → LfnState) :
    (ExfatLoopsEnd m d ∧ TableOk (parseExfatRootDirectory m d).2.rootEntries) ∧
      (∀ more, parseFat32Subdirectories fat d stack (maxRootEntries + more) 0 (parsedFat32Root fat d stack) =
        parseFat32RootDirectory fat d stack) ∧
      TableOk (parseFat32RootDirectory fat d stack) := by
  refine ⟨⟨⟨?_, ?_, ?_⟩, parseExfatRootDirectory_ok m d⟩, ?_, ?_⟩
  · exact fun sector parent st more => parseSlots_more (by decide) st
  · exact fun more => parseSubdirectories_more m d (by decide) (parsedRoot_ok m d)
  · exact fun found more positive => scanBitmapClusters_more found d positive (Nat.le_add_left _ _)
  · exact fun more => parseFat32Subdirectories_more fat d stack (by decide) (parsedFat32Root_ok fat d stack)
  · exact parseFat32Subdirectories_ok fat d stack _ 0 (parsedFat32Root_ok fat d stack)

end TangPingOS
