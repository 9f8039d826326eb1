import TangPingOS.Exfat.Decode
import TangPingOS.Exfat.Reading

/-! # The files of a directory

A directory is one row of slots through the sectors of its chain, and a file set may lie anywhere
in it. `parse_exfat_directory_sector` sees one sector at a time: it reads of a set what the sector
holds, and begins the next sector at its first slot.
-/

namespace TangPingOS

open Lib

/-! ## The sectors of a directory -/

/-- The sectors of a cluster from `sectorIndex` on, and whether all of them could be read. -/
def readableSectors (d : Device) (lba sectorIndex : Nat) : Nat → List Sector × Bool
  | 0 => ([], true)
  | left + 1 =>
    match blockRead d (wrap64 (lba + sectorIndex)) with
    | none => ([], false)
    | some sector =>
      let (rest, all) := readableSectors d lba (sectorIndex + 1) left
      (sector :: rest, all)

/-- The sectors of a chain in order, from cluster `clusterIndex` on, as far as it leads and can be read. -/
def chainSectors (m : Mount) (d : Device) (firstCluster streamFlags : Nat) : Nat → Nat → List Sector
  | 0, _ => []
  | left + 1, clusterIndex =>
    match exfatResolveCluster m d firstCluster streamFlags clusterIndex with
    | none => []
    | some cluster =>
      if exfatClusterLba m cluster = u64Max then []
      else
        let (sectors, all) := readableSectors d (exfatClusterLba m cluster) 0 m.sectorsPerCluster
        sectors ++ if all then chainSectors m d firstCluster streamFlags left (clusterIndex + 1) else []

def directorySectors (m : Mount) (d : Device) (firstCluster streamFlags : Nat) : List Sector :=
  if !exfatClusterValid m firstCluster || m.blockSize != 512 then []
  else chainSectors m d firstCluster streamFlags m.exfat.clusterCount 0

def parseSectorList (parent : Bytes) : List Sector → DirParse → DirParse
  | [], st => st
  | sector :: rest, st =>
    if st.stop then st else parseSectorList parent rest (parseExfatDirectorySector sector parent st)

theorem parseSectorList_stop (stop : st.stop) : parseSectorList parent sectors st = st := by
  cases sectors with
  | nil => rfl
  | cons sector rest => rw [parseSectorList, if_pos stop]

theorem parseSectorList_append (st : DirParse) :
    parseSectorList parent (first ++ second) st =
      parseSectorList parent second (parseSectorList parent first st) := by
  induction first generalizing st with
  | nil => rfl
  | cons sector rest ih =>
    rw [List.cons_append, parseSectorList, parseSectorList]
    split
    · rename_i stop
      rw [parseSectorList_stop stop]
    · exact ih _

/-- A cluster: the sectors that can be read, and a failure only if parsing gets to the one that cannot. -/
theorem parseDirectorySectors_list (d : Device) (parent : Bytes) (lba j left : Nat) (st : DirParse) :
    (parseDirectorySectors d parent lba j left st).1 =
        parseSectorList parent (readableSectors d lba j left).1 st ∧
      ((readableSectors d lba j left).2 → (parseDirectorySectors d parent lba j left st).2) ∧
      ((readableSectors d lba j left).2 = false → (parseDirectorySectors d parent lba j left st).2 →
        (parseDirectorySectors d parent lba j left st).1.stop) := by
  induction left generalizing j st with
  | zero => simp [parseDirectorySectors, readableSectors, parseSectorList]
  | succ left ih =>
    rw [parseDirectorySectors, readableSectors]
    cases stop : st.stop with
    | true =>
      rw [parseSectorList_stop stop]
      exact ⟨rfl, fun _ => rfl, fun _ _ => stop⟩
    | false =>
      cases blockRead d (wrap64 (lba + j)) with
      | none => simp [parseSectorList]
      | some sector =>
        rw [parseSectorList, stop]
        exact ih (j + 1) (parseExfatDirectorySector sector parent st)

theorem parseDirectoryClusters_list (firstCluster streamFlags left i : Nat) (st : DirParse) :
    parseDirectoryClusters m d parent firstCluster streamFlags left i st =
      parseSectorList parent (chainSectors m d firstCluster streamFlags left i) st := by
  induction left generalizing i st with
  | zero => rfl
  | succ left ih =>
    rw [parseDirectoryClusters, chainSectors]
    cases stop : st.stop with
    | true => rw [if_pos rfl, parseSectorList_stop stop]
    | false =>
      rw [if_neg Bool.false_ne_true]
      cases exfatResolveCluster m d firstCluster streamFlags i with
      | none => rfl
      | some cluster =>
        simp only
        split
        · rfl
        · obtain ⟨parsed, complete, failed⟩ :=
            parseDirectorySectors_list d parent (exfatClusterLba m cluster) 0 m.sectorsPerCluster st
          rw [parseSectorList_append, ← parsed]
          generalize parseDirectorySectors d parent (exfatClusterLba m cluster) 0 m.sectorsPerCluster st =
            result at complete failed ⊢
          obtain ⟨st', went⟩ := result
          cases all : (readableSectors d (exfatClusterLba m cluster) 0 m.sectorsPerCluster).2 with
          | true =>
            cases complete all
            exact ih (i + 1) st'
          | false =>
            cases went with
            | false => rfl
            | true =>
              -- parsing stopped in front of the sector that cannot be read
              have stopped : st'.stop := failed all rfl
              exact (ih (i + 1) st').trans (parseSectorList_stop stopped)

theorem parseExfatDirectoryChain_list :
    (parseExfatDirectoryChain m d parent firstCluster streamFlags st).entries =
      (parseSectorList parent (directorySectors m d firstCluster streamFlags) { st with stop := false }).entries := by
  rw [parseExfatDirectoryChain, directorySectors]
  split
  · rfl
  · rw [parseDirectoryClusters_list]

/-- The slots at which `parse_exfat_directory_sector` takes a set, from `slot` on, and whether it meets the
    end mark. It passes over as many slots behind a set as the set says it has. -/
def takenSlots (s : Sector) : Nat → Nat → List Nat × Bool
  | 0, _ => ([], false)
  | fuel + 1, slot =>
    if 16 ≤ slot then ([], false)
    else if s.get (slot * 32) = 0 then ([], true)
    else if s.get (slot * 32) = 0x85 then
      let (more, ends) := takenSlots s fuel (slot + (s.get (slot * 32 + 1)).toNat + 1)
      (slot :: more, ends)
    else takenSlots s fuel (slot + 1)

def setFile (parent : Bytes) (s : Sector) (slot : Nat) : Option RootEntry :=
  let info := parseFileSet s slot
  addExfatRootEntry [] parent info.name info.size info.firstCluster (s.readLe16 (slot * 32 + 4)) info.streamFlags

theorem parseSlots_file (inside : ¬16 ≤ slot) (file : s.get (slot * 32) = 0x85) :
    parseSlots s parent (fuel + 1) slot st =
      parseSlots s parent fuel (slot + (s.get (slot * 32 + 1)).toNat + 1)
        { st with entries := fill st.entries (setFile parent s slot).toList } := by
  have isFile : s.get (slot * exfatEntrySize) = 0x85 := file
  have notEnd : ¬s.get (slot * exfatEntrySize) = 0 := by
    rw [isFile]
    decide
  have notBitmap : ¬s.get (slot * exfatEntrySize) = 0x81 := by
    rw [isFile]
    decide
  rw [setFile, ← append_addExfatRootEntry, parseSlots]
  simp only [if_neg inside, if_neg notEnd, if_neg notBitmap, if_neg (not_not.mpr isFile)]
  rw [show slot * exfatEntrySize = slot * 32 from rfl]
  cases addExfatRootEntry st.entries parent (parseFileSet s slot).name (parseFileSet s slot).size
      (parseFileSet s slot).firstCluster (s.readLe16 (slot * 32 + 4)) (parseFileSet s slot).streamFlags with
  | none => rw [Option.toList_none, List.append_nil]
  | some entry => rfl

theorem parseSlots_fill (s : Sector) (parent : Bytes) (fuel slot : Nat) (st : DirParse) :
    (parseSlots s parent fuel slot st).entries =
        fill st.entries ((takenSlots s fuel slot).1.filterMap (setFile parent s)) ∧
      (parseSlots s parent fuel slot st).stop = (st.stop || (takenSlots s fuel slot).2) := by
  induction fuel generalizing slot st with
  | zero => simp [parseSlots, takenSlots, fill_nil]
  | succ fuel ih =>
    by_cases out : 16 ≤ slot
    · simp [parseSlots, takenSlots, out, fill_nil]
    by_cases ends : s.get (slot * 32) = 0
    · simp [parseSlots, takenSlots, exfatEntrySize, out, ends, fill_nil]
    by_cases file : s.get (slot * 32) = 0x85
    · obtain ⟨entries, stop⟩ := ih (slot + (s.get (slot * 32 + 1)).toNat + 1)
        { st with entries := fill st.entries (setFile parent s slot).toList }
      rw [parseSlots_file out file, takenSlots, if_neg out, if_neg ends, if_pos file]
      refine ⟨?_, stop⟩
      rw [entries, fill_append]
      cases taken : setFile parent s slot with
      | none => rw [List.filterMap_cons_none taken, Option.toList_none, List.nil_append]
      | some entry => rw [List.filterMap_cons_some taken, Option.toList_some, List.singleton_append]
    · have other : s.get (slot * exfatEntrySize) ≠ 0x85 := file
      have goesOn : ¬s.get (slot * exfatEntrySize) = 0 := ends
      rw [takenSlots, parseSlots]
      simp only [if_neg out, if_neg goesOn]
      split
      · exact ih _ _
      · exact ih _ _

/-- The sector that slot `p` of a directory lies in. -/
def slotSector (sectors : List Sector) (p : Nat) : Sector := sectors.getD (p / 16) Buf.zero

/-- Byte `j` of slot `p` of a directory. -/
def slotByte (sectors : List Sector) (p j : Nat) : UInt8 := (slotSector sectors p).get (p % 16 * 32 + j)

/-- The slots of a directory at which sets are taken, from sector `i` on. -/
def takenFrom : Nat → List Sector → List Nat
  | _, [] => []
  | i, s :: rest =>
    (takenSlots s 16 0).1.map (16 * i + ·) ++ if (takenSlots s 16 0).2 then [] else takenFrom (i + 1) rest

def takenSets (sectors : List Sector) : List Nat := takenFrom 0 sectors

theorem takenSlots_lt (member : k ∈ (takenSlots s fuel slot).1) : k < 16 := by
  induction fuel generalizing slot with
  | zero => cases member
  | succ fuel ih =>
    rw [takenSlots] at member
    split at member
    · cases member
    rename_i inside
    split at member
    · cases member
    split at member
    · rcases List.mem_cons.mp member with rfl | later
      · exact Nat.not_le.mp inside
      · exact ih later
    · exact ih member

theorem parseSectorList_fill (before sectors : List Sector) (going : st.stop = false) :
    (parseSectorList parent sectors st).entries =
      fill st.entries ((takenFrom before.length sectors).filterMap fun q =>
        setFile parent (slotSector (before ++ sectors) q) (q % 16)) := by
  induction sectors generalizing before st with
  | nil => exact fill_nil.symm
  | cons s rest ih =>
    obtain ⟨entries, stop⟩ := parseSlots_fill s parent 16 0 st
    rw [going] at stop
    have here : ((takenSlots s 16 0).1.map (16 * before.length + ·)).filterMap (fun q =>
        setFile parent (slotSector (before ++ s :: rest) q) (q % 16)) =
        (takenSlots s 16 0).1.filterMap (setFile parent s) := by
      rw [List.filterMap_map]
      apply List.filterMap_congr
      intro k member
      have small := takenSlots_lt member
      have row : (16 * before.length + k) / 16 = before.length := by omega
      have column : (16 * before.length + k) % 16 = k := by omega
      simp [slotSector, row, column]
    rw [parseSectorList, if_neg (by rw [going]; exact Bool.false_ne_true), takenFrom, List.filterMap_append,
      here, ← fill_append, ← entries]
    cases ends : (takenSlots s 16 0).2 with
    | true =>
      rw [if_pos rfl, List.filterMap_nil, fill_nil]
      rw [ends] at stop
      rw [parseExfatDirectorySector, parseSectorList_stop stop]
    | false =>
      rw [ends] at stop
      have later := ih (before ++ [s]) stop
      rw [List.length_append, List.append_assoc] at later
      exact later

/-- What a file set says. -/
structure FileSet where
  name : Bytes
  size : Nat
  firstCluster : Nat
  attributes : Nat
  streamFlags : Nat

def FileSet.nameEntries (set : FileSet) : Nat := (set.name.length + 14) / 15

/-- A well-formed set at slot `p` of a directory, in front of the end mark: the file entry, one stream entry
    and the entries of a printable name. -/
@[mk_iff]
structure FileSetAt (sectors : List Sector) (p : Nat) (set : FileSet) : Prop where
  inside : p + 1 + set.nameEntries < 16 * sectors.length
  unended : ∀ k ≤ p + 1 + set.nameEntries, slotByte sectors k 0 ≠ 0
  named : set.name ≠ []
  short : set.name.length ≤ 63
  printable : ∀ c ∈ set.name, 32 ≤ c ∧ c < 127
  fileMark : slotByte sectors p 0 = 0x85
  secondaries : (slotByte sectors p 1).toNat = 1 + set.nameEntries
  attributes : (slotSector sectors p).readLe16 (p % 16 * 32 + 4) = set.attributes
  streamMark : slotByte sectors (p + 1) 0 = 0xc0
  flags : (slotByte sectors (p + 1) 1).toNat = set.streamFlags
  nameLength : (slotByte sectors (p + 1) 3).toNat = set.name.length
  firstCluster : (slotSector sectors (p + 1)).readLe32 ((p + 1) % 16 * 32 + 20) = set.firstCluster
  size : (slotSector sectors (p + 1)).readLe64 ((p + 1) % 16 * 32 + 24) = set.size
  nameMark : ∀ k < set.nameEntries, slotByte sectors (p + 2 + k) 0 = 0xc1
  chars : ∀ i < set.name.length,
    slotByte sectors (p + 2 + i / 15) (2 + i % 15 * 2) = set.name.getD i 0 ∧
      slotByte sectors (p + 2 + i / 15) (3 + i % 15 * 2) = 0

instance (sectors : List Sector) (p : Nat) (set : FileSet) : Decidable (FileSetAt sectors p set) :=
  decidable_of_iff' _ (fileSetAt_iff sectors p set)

/-- Slots of one sector. -/
theorem slotSector_same {sectors p j} (inside : p % 16 + j < 16) :
    slotSector sectors (p + j) = slotSector sectors p ∧ (p + j) % 16 = p % 16 + j := by
  have row : (p + j) / 16 = p / 16 := by omega
  exact ⟨by rw [slotSector, slotSector, row], by omega⟩

theorem slotByte_same (inside : p % 16 + j < 16) :
    slotByte sectors (p + j) b = (slotSector sectors p).get ((p % 16 + j) * 32 + b) := by
  obtain ⟨sector, slot⟩ := @slotSector_same sectors p j inside
  rw [slotByte, sector, slot]

namespace FileSetAt

variable {sectors : List Sector} {p : Nat} {set : FileSet} (well : FileSetAt sectors p set)

include well

/-- The stream entry, if it lies in the sector of the set. -/
theorem add_stream (inside : p % 16 + 1 < 16) :
    SetInfo.add {} (slotSector sectors p) ((p % 16 + 1) * exfatEntrySize) =
      { streamFlags := set.streamFlags, nameLen := set.name.length, firstCluster := set.firstCluster
        size := set.size, name := [] } := by
  obtain ⟨sector, slot⟩ := @slotSector_same sectors p 1 inside
  have mark := well.streamMark
  have flags := well.flags
  have nameLength := well.nameLength
  have firstCluster := well.firstCluster
  have size := well.size
  rw [slotByte_same inside] at mark flags nameLength
  rw [Nat.add_zero] at mark
  rw [sector, slot] at firstCluster size
  rw [SetInfo.add, exfatEntrySize, if_pos mark, flags, nameLength, firstCluster, size]

/-- A name entry that lies in the sector of the set. -/
theorem add_name (entry : a < set.nameEntries) (inside : p % 16 + (2 + a) < 16) {info : SetInfo}
    (length : info.nameLen = set.name.length) (before : info.name = set.name.take (15 * a)) :
    info.add (slotSector sectors p) ((p % 16 + (2 + a)) * exfatEntrySize) =
      { info with name := set.name.take (15 * (a + 1)) } := by
  have mark := well.nameMark a entry
  rw [Nat.add_assoc, slotByte_same inside, Nat.add_zero] at mark
  have positive : 0 < set.name.length := List.length_pos_iff.mpr well.named
  have started : 15 * a ≤ set.name.length := by
    unfold FileSet.nameEntries at entry
    omega
  have chars : ∀ i < 15, 15 * a + i < set.name.length →
      (slotSector sectors p).get ((p % 16 + (2 + a)) * 32 + 2 + i * 2) = set.name.getD (15 * a + i) 0 ∧
        (slotSector sectors p).get ((p % 16 + (2 + a)) * 32 + 3 + i * 2) = 0 := by
    intro i small more
    obtain ⟨low, high⟩ := well.chars (15 * a + i) more
    have row : (15 * a + i) / 15 = a := by omega
    have column : (15 * a + i) % 15 = i := by omega
    rw [row, column, Nat.add_assoc p, slotByte_same inside] at low high
    rw [Nat.add_assoc _ 2, Nat.add_assoc _ 3]
    exact ⟨low, high⟩
  have copied := appendExfatNameChars_part (Nat.lt_succ_of_le well.short) well.printable chars (Nat.zero_add 15)
    started
  rw [SetInfo.add, exfatEntrySize, if_neg (by rw [mark]; decide), if_pos ⟨mark, by omega⟩, length, before]
  rw [Nat.add_zero] at copied
  rw [copied, Nat.mul_succ]

/-- The name entries from the `a`th on. -/
theorem scan_names {a t} (entries : a + t ≤ set.nameEntries) (inside : p % 16 + 1 + a + t < 16)
    (info : SetInfo) (length : info.nameLen = set.name.length) (before : info.name = set.name.take (15 * a)) :
    scanSecondaries (slotSector sectors p) (p % 16 + (2 + a)) t info =
      { info with name := set.name.take (15 * (a + t)) } := by
  induction t generalizing a info with
  | zero => rw [scanSecondaries, Nat.add_zero, ← before]
  | succ t ih =>
    rw [scanSecondaries, well.add_name (by omega) (by omega) length before]
    have later := @ih (a + 1) (by omega) (by omega) { info with name := set.name.take (15 * (a + 1)) } length rfl
    rw [Nat.add_assoc, Nat.add_assoc, later, Nat.add_assoc a, Nat.add_comm 1 t]

/-- What of the set its first sector holds: nothing, or the stream entry and the beginning of the name. -/
theorem parsed :
    parseFileSet (slotSector sectors p) (p % 16) =
      if p % 16 = 15 then {}
      else
        { streamFlags := set.streamFlags, nameLen := set.name.length, firstCluster := set.firstCluster
          size := set.size, name := set.name.take (15 * min set.nameEntries (14 - p % 16)) } := by
  have count : (slotSector sectors p).get (p % 16 * exfatEntrySize + 1) = slotByte sectors p 1 := rfl
  rw [parseFileSet, count, well.secondaries]
  split
  · rename_i last
    rw [last, Nat.sub_self, Nat.min_zero, scanSecondaries]
  · have more : min (1 + set.nameEntries) (15 - p % 16) = min set.nameEntries (14 - p % 16) + 1 := by omega
    rw [more, scanSecondaries, well.add_stream (by omega)]
    have names := @scan_names _ _ _ well 0 (min set.nameEntries (14 - p % 16)) (by omega) (by omega)
      { streamFlags := set.streamFlags, nameLen := set.name.length, firstCluster := set.firstCluster
        size := set.size, name := [] } rfl rfl
    rw [Nat.zero_add] at names
    exact names

end FileSetAt

/-- The set that is taken at a slot says the same. -/
structure TakenAs (sectors : List Sector) (q : Nat) (set : FileSet) : Prop where
  name : (parseFileSet (slotSector sectors q) (q % 16)).name = set.name
  size : (parseFileSet (slotSector sectors q) (q % 16)).size = set.size
  firstCluster : (parseFileSet (slotSector sectors q) (q % 16)).firstCluster = set.firstCluster
  attributes : (slotSector sectors q).readLe16 (q % 16 * 32 + 4) = set.attributes
  streamFlags : (parseFileSet (slotSector sectors q) (q % 16)).streamFlags = set.streamFlags

/-- A set is taken for what it is exactly if it lies in one sector. -/
theorem FileSetAt.takenAs_iff {sectors p set}
    (well : FileSetAt sectors p set) : TakenAs sectors p set ↔ p % 16 + 1 + set.nameEntries < 16 := by
  have parsed := well.parsed
  have positive : 0 < set.name.length := List.length_pos_iff.mpr well.named
  constructor
  · intro taken
    have name := taken.name
    rw [parsed] at name
    split at name
    · exact absurd name.symm well.named
    · have whole := congrArg List.length name
      rw [List.length_take] at whole
      unfold FileSet.nameEntries at whole ⊢
      omega
  · intro inside
    rw [if_neg (by omega)] at parsed
    refine ⟨?_, by rw [parsed], by rw [parsed], well.attributes, by rw [parsed]⟩
    rw [parsed]
    apply List.take_of_length_le
    unfold FileSet.nameEntries at inside ⊢
    omega

/-- An entry of the table shows what a set says. -/
structure RootEntry.Shows (e : RootEntry) (set : FileSet) : Prop where
  name : e.name = set.name
  size : e.size = set.size
  firstCluster : e.firstCluster = set.firstCluster
  attributes : e.attributes = set.attributes
  streamFlags : e.streamFlags = set.streamFlags

def addedEntries (m : Mount) (d : Device) (parent : Bytes) (firstCluster streamFlags : Nat) (st : DirParse) :
    List RootEntry :=
  (parseExfatDirectoryChain m d parent firstCluster streamFlags st).entries.drop st.entries.length

def takenNamed (sectors : List Sector) (q : Nat) : Bool := setName (slotSector sectors q) (q % 16) != []

theorem setFile_isSome : (setFile parent (slotSector sectors q) (q % 16)).isSome = takenNamed sectors q := by
  have empty : ¬maxRootEntries ≤ ([] : List RootEntry).length := by decide
  simp only [setFile, addExfatRootEntry, empty, false_or, takenNamed, setName]
  split <;> simp [*]

theorem setFile_shows {set : FileSet} (named : set.name ≠ []) :
    (∃ e, setFile parent (slotSector sectors q) (q % 16) = some e ∧ e.Shows set) ↔ TakenAs sectors q set := by
  have empty : ¬maxRootEntries ≤ ([] : List RootEntry).length := by decide
  have whole : copyLimited 64 (parseFileSet (slotSector sectors q) (q % 16)).name =
      (parseFileSet (slotSector sectors q) (q % 16)).name :=
    List.take_of_length_le (Nat.le_of_lt_succ length_setName)
  simp only [setFile, addExfatRootEntry, empty, false_or, whole]
  constructor
  · rintro ⟨e, entered, shows⟩
    split at entered
    · cases entered
    · cases entered
      exact ⟨shows.name, shows.size, shows.firstCluster, shows.attributes, shows.streamFlags⟩
  · intro taken
    rw [if_neg (by rw [taken.name]; exact named)]
    exact ⟨_, rfl, taken.name, taken.size, taken.firstCluster, taken.attributes, taken.streamFlags⟩

/-- A set of a directory is listed exactly if it lies in one sector, is not passed over, and finds room in
    the table; or another set that is taken says the same and finds room. -/
theorem file_sets_listed_iff (m : Mount) (d : Device) (parent : Bytes) (firstCluster streamFlags : Nat)
    (st : DirParse) (p : Nat) (set : FileSet)
    (well : FileSetAt (directorySectors m d firstCluster streamFlags) p set) :
    (∃ e ∈ addedEntries m d parent firstCluster streamFlags st, e.Shows set) ↔
      ∃ before q after,
        takenSets (directorySectors m d firstCluster streamFlags) = before ++ q :: after ∧
        st.entries.length + before.countP (takenNamed (directorySectors m d firstCluster streamFlags)) <
          maxRootEntries ∧
        (q = p ∧ p % 16 + 1 + set.nameEntries < 16 ∨
          q ≠ p ∧ TakenAs (directorySectors m d firstCluster streamFlags) q set) := by
  have added : addedEntries m d parent firstCluster streamFlags st =
      ((takenSets (directorySectors m d firstCluster streamFlags)).filterMap fun q =>
        setFile parent (slotSector (directorySectors m d firstCluster streamFlags) q) (q % 16)).take
          (maxRootEntries - st.entries.length) := by
    rw [addedEntries, parseExfatDirectoryChain_list, parseSectorList_fill [] _ rfl, fill, List.drop_left]
    rfl
  rw [added, exists_mem_take_filterMap]
  generalize directorySectors m d firstCluster streamFlags = sectors at well ⊢
  apply exists_congr
  intro before
  apply exists_congr
  intro q
  apply exists_congr
  intro after
  apply and_congr_right
  intro _
  apply and_congr
  · have count : (before.filterMap fun q => setFile parent (slotSector sectors q) (q % 16)).length =
        before.countP (takenNamed sectors) := by
      rw [List.length_filterMap_eq_countP]
      exact List.countP_congr fun q _ => by rw [setFile_isSome]
    rw [count]
    omega
  · rw [setFile_shows well.named]
    by_cases itself : q = p
    · subst itself
      simp [well.takenAs_iff]
    · simp [itself]

/-- A file `A` of five bytes in cluster 4. -/
def fileA : FileSet := { name := [0x41], size := 5, firstCluster := 4, attributes := 0x20, streamFlags := 0 }

/-- A directory of the two clusters 2 and 3 that begins with `unused` deleted entries; then the set of
    the file comes. -/
def directoryWith (unused : Nat) : Device where
  blockCount := 24
  bounded := blankDevice.bounded
  writable := false
  fault _ := false
  data lba :=
    let slots := (List.range unused).flatMap (fun _ => 0x05 :: List.replicate 31 0) ++
      (encodeExfatFileEntries fileA.name fileA.firstCluster fileA.size).slice 0 96
    if lba = 8 then Buf.zero.write 0 (slots.take 512)
    else if lba = 9 then Buf.zero.write 0 (slots.drop 512)
    else Buf.zero

theorem file_sets_listed_two :
    (∃ e ∈ addedEntries sixteenClusters (directoryWith 2) rootPath 2 2 { bitmap := {}, entries := [] },
      e.Shows fileA) :=
  (file_sets_listed_iff sixteenClusters (directoryWith 2) rootPath 2 2 { bitmap := {}, entries := [] } 2 fileA
    (by decide +kernel)).mpr ⟨[], 2, [], by decide +kernel, by decide, .inl ⟨rfl, by decide⟩⟩

/-- The set begins in the last slot of a sector, and the directory comes out empty. -/
theorem set_across_sectors_missed :
    FileSetAt (directorySectors sixteenClusters (directoryWith 15) 2 2) 15 fileA ∧
      (List.range (16 * (directorySectors sixteenClusters (directoryWith 15) 2 2).length)).countP (fun k =>
        slotByte (directorySectors sixteenClusters (directoryWith 15) 2 2) k 0 == 0x85) = 1 ∧
      addedEntries sixteenClusters (directoryWith 15) rootPath 2 2 { bitmap := {}, entries := [] } = [] := by
  decide +kernel

end TangPingOS
