import TangPingOS.Exfat.Searches
import TangPingOS.Fat32.Reading
import TangPingOS.Vfs.Listing

/-! # Opening what is listed

A directory of a block filesystem is listed by comparing the stored path of each entry's parent;
a file is opened by taking its path apart again and looking the two parts up. The reader of the
volume may still refuse the entry that is found.
-/

namespace TangPingOS

open Lib

variable {dir name path : Bytes} {fs : Fs} {pieces : List Bytes} {entries : List RootEntry} {index : Nat}
  {e : RootEntry}

/-! ## Files of a mounted volume -/

/-- `struct blockfs_mount`, without the table of entries and what only test builds use. -/
structure BlockfsMount where
  blockSize : Nat
  exfat : ExfatBootInfo := {}
  fat32 : Fat32BootInfo := {}

def BlockfsMount.exfatMount (m : BlockfsMount) : Mount := { blockSize := m.blockSize, exfat := m.exfat }

def BlockfsMount.fat32Mount (m : BlockfsMount) : Fat32Mount :=
  { blockSize := m.blockSize, fat32 := m.fat32 }

def blockfsInfoMax : Nat := 8192

/-- `append_char`: a character that does not fit is dropped. -/
def appendChar (bufferLen : Nat) (buffer : Bytes) (c : UInt8) : Bytes :=
  if bufferLen ≤ buffer.length + 1 then buffer else buffer ++ [c]

def appendString (bufferLen : Nat) (buffer s : Bytes) : Bytes := s.foldl (appendChar bufferLen) buffer

section

variable (pieces : List Bytes)

/-- `build_info`, of the texts and numbers that it appends. -/
def buildInfo : Bytes := pieces.foldl (appendString blockfsInfoMax) []

/-- `read_from_buffer`: what is copied. -/
def readFromBuffer (offset bufferLen : Nat) (data : Bytes) : Bytes :=
  if data.length ≤ offset then [] else (data.drop offset).take (min bufferLen (data.length - offset))

/-- `info.txt`. -/
def infoName : Bytes := [0x69, 0x6e, 0x66, 0x6f, 0x2e, 0x74, 0x78, 0x74]

/-- `sector0.bin`. -/
def sectorZeroName : Bytes := [0x73, 0x65, 0x63, 0x74, 0x6f, 0x72, 0x30, 0x2e, 0x62, 0x69, 0x6e]

/-- `blockfs_read`; none is the result `(uint64_t)-1`. -/
def blockfsRead (m : BlockfsMount) (path : Bytes) (offset bufferLen : Nat) (fs : Fs) : Option Bytes :=
  if path = slash :: infoName then some (readFromBuffer offset bufferLen (buildInfo pieces))
  else if path = slash :: sectorZeroName then
    if m.blockSize ≠ 512 then none
    else (blockRead fs.dev 0).map fun sector => readFromBuffer offset bufferLen (sector.slice 0 512)
  else
    match (findExfatRootEntry fs.rootEntries path).bind (fs.rootEntries[·]?) with
    | none => none
    | some e =>
      if m.fat32.present then some (readFat32File m.fat32Mount fs.dev e offset bufferLen)
      else readExfatRootFile m.exfatMount fs.dev e offset bufferLen

/-- `blockfs_size`, with the value that stands for a failure. -/
def blockfsSize (path : Bytes) (fs : Fs) : Nat :=
  if path = slash :: infoName then (buildInfo pieces).length
  else if path = slash :: sectorZeroName then 512
  else
    match (findExfatRootEntry fs.rootEntries path).bind (fs.rootEntries[·]?) with
    | none => u64Max
    | some e => e.size

def childPath (dir name : Bytes) : Bytes := if dir = rootPath then slash :: name else dir ++ slash :: name

theorem appendString_length (short : buffer.length < bufferLen) : (appendString bufferLen buffer s).length < bufferLen := by
  induction s generalizing buffer with
  | nil => exact short
  | cons c s ih =>
    apply ih
    unfold appendChar
    split
    · exact short
    · rw [List.length_append, List.length_singleton]
      omega

theorem buildInfo_length : (buildInfo pieces).length < blockfsInfoMax := by
  have fill (pieces : List Bytes) (buffer : Bytes) (short : buffer.length < blockfsInfoMax) :
      (pieces.foldl (appendString blockfsInfoMax) buffer).length < blockfsInfoMax := by
    induction pieces generalizing buffer with
    | nil => exact short
    | cons piece pieces ih => exact ih _ (appendString_length short)
  exact fill pieces [] (by decide)

end

def RootEntry.dirent (e : RootEntry) : Dirent where
  name := copyLimited vfsDirentNameMax e.name
  type := if e.isDir then .dir else .file
  size := e.size

def entriesIn (entries : List RootEntry) (dir : Bytes) : List RootEntry :=
  entries.filter fun e => e.parent == dir

theorem mem_entriesIn : e ∈ entriesIn entries dir ↔ e ∈ entries ∧ e.parent = dir := by
  rw [entriesIn, List.mem_filter, beq_iff_eq]

theorem blockfsListFrom_eq (more : seen ≤ index) :
    blockfsListFrom dir index entries seen =
      ((entriesIn entries dir)[index - seen]?).map RootEntry.dirent := by
  induction entries generalizing seen with
  | nil => rfl
  | cons e rest ih =>
    rw [blockfsListFrom]
    by_cases inside : e.parent = dir
    · have listed : entriesIn (e :: rest) dir = e :: entriesIn rest dir := by
        simp [entriesIn, inside]
      rw [listed, if_neg (not_not.mpr inside)]
      by_cases here : seen = index
      · subst here
        simp [RootEntry.dirent]
      · obtain ⟨n, isNext⟩ : ∃ n, index - seen = n + 1 := ⟨index - seen - 1, by omega⟩
        have later : index - (seen + 1) = n := by omega
        rw [if_pos here, ih (by omega), isNext, List.getElem?_cons_succ, later]
    · have skipped : entriesIn (e :: rest) dir = entriesIn rest dir := by
        simp [entriesIn, inside]
      rw [if_pos inside, ih more, skipped]

def listedEntry (entries : List RootEntry) (dir : Bytes) (index : Nat) : Option RootEntry :=
  (entriesIn entries dir)[if dir = rootPath then index - 2 else index]?

/-- One of the files that are made up, or an entry of the table. -/
theorem blockfsList_cases (listed : blockfsList dir index entries = some (some file)) :
    (dir = rootPath ∧ index = 0 ∧ file.name = infoName) ∨
    (dir = rootPath ∧ index = 1 ∧ file.name = sectorZeroName) ∨
    ((dir = rootPath → 2 ≤ index) ∧ ∃ e, listedEntry entries dir index = some e ∧ file = e.dirent) := by
  rw [blockfsList, show [slash] = rootPath from rfl] at listed
  split at listed
  · rename_i isRoot
    split at listed
    · rename_i first
      cases listed
      exact .inl ⟨isRoot, first, rfl⟩
    split at listed
    · rename_i second
      cases listed
      exact .inr (.inl ⟨isRoot, second, rfl⟩)
    rw [Option.some.injEq, blockfsListFrom_eq (Nat.zero_le _), Option.map_eq_some_iff] at listed
    obtain ⟨e, found, rfl⟩ := listed
    refine .inr (.inr ⟨fun _ => by omega, e, ?_, rfl⟩)
    rw [listedEntry, if_pos isRoot]
    exact found
  · rename_i notRoot
    rw [Option.some.injEq, blockfsListFrom_eq (Nat.zero_le _), Option.map_eq_some_iff] at listed
    obtain ⟨e, found, rfl⟩ := listed
    refine .inr (.inr ⟨fun isRoot => absurd isRoot notRoot, e, ?_, rfl⟩)
    rw [listedEntry, if_neg notRoot]
    exact found

/-- Names of a directory fit a name buffer and can stand in a path. -/
def PlainNames (entries : List RootEntry) (dir : Bytes) : Prop :=
  ∀ e ∈ entriesIn entries dir, e.name.length < vfsDirentNameMax ∧ slash ∉ e.name

def DistinctNames (entries : List RootEntry) (dir : Bytes) : Prop :=
  ∀ i j a b, blockfsList dir i entries = some (some a) → blockfsList dir j entries = some (some b) →
    a.name = b.name → i = j

/-! ## Looking up what is listed -/

theorem childPath_append (other : dir ≠ rootPath) :
    childPath dir name = dir ++ slash :: name := if_neg other

/-- A path without a further slash is that of a name in the root. -/
theorem childPath_eq_root {text : Bytes} (absolute : dir.head? = some slash) (plain : slash ∉ text) :
    childPath dir name = slash :: text ↔ dir = rootPath ∧ name = text := by
  by_cases isRoot : dir = rootPath
  · simp [childPath, isRoot]
  · rw [childPath_append isRoot]
    constructor
    · intro same
      exfalso
      cases dir with
      | nil => cases absolute
      | cons c dir =>
        rw [List.cons_append, List.cons.injEq] at same
        apply plain
        rw [← same.2]
        simp
    · rintro ⟨rfl, -⟩
      exact absurd rfl isRoot

/-- How a path is taken apart that was put together from a directory and a name. -/
theorem splitPath_childPath (absolute : dir.head? = some slash)
    (short : name.length < vfsDirentNameMax) (plain : slash ∉ name) :
    splitPath (childPath dir name) =
      if name ≠ [] ∧ (dir = rootPath ∨ dir.length ≤ 62) then some (dir, name) else none := by
  have whole : copyLimited 64 name = name := List.take_of_length_le (Nat.le_of_lt_succ short)
  by_cases isRoot : dir = rootPath
  · subst isRoot
    have last : lastSlash (0x2f :: name) = 0 := lastSlash_eq plain []
    simp [childPath, splitPath, slash, last, whole]
  · have last := lastSlash_eq plain dir
    have filled : dir ≠ [] := by
      rintro rfl
      cases absolute
    have begins : (dir ++ 0x2f :: name).head? = some 0x2f := by
      rw [List.head?_append, absolute]
      rfl
    rw [childPath_append isRoot]
    simp only [splitPath, slash, begins, last, List.length_eq_zero_iff, filled, isRoot, ne_eq,
      not_true_eq_false, if_false, false_or]
    by_cases long : 64 ≤ dir.length + 1
    · rw [if_pos long, if_neg (by omega)]
    · have fits : dir.length ≤ 62 := by omega
      have behind : (dir ++ 0x2f :: name).drop (dir.length + 1) = name := by
        simp
      rw [if_neg long, behind, whole, List.take_left]
      simp [fits]

theorem blockfsList_listedEntry
    (tabled : dir = rootPath → 2 ≤ index) (listed : listedEntry entries dir index = some e) :
    blockfsList dir index entries = some (some e.dirent) := by
  rw [blockfsList, show [slash] = rootPath from rfl]
  rw [listedEntry] at listed
  split at listed
  · rename_i isRoot
    have behind := tabled isRoot
    rw [if_pos isRoot, if_neg (by omega), if_neg (by omega), blockfsListFrom_eq (Nat.zero_le _),
      Nat.sub_zero, listed, Option.map_some]
  · rename_i notRoot
    rw [if_neg notRoot, blockfsListFrom_eq (Nat.zero_le _), Nat.sub_zero, listed,
      Option.map_some]

theorem DistinctNames.unique (distinct : DistinctNames entries dir)
    (tabled : dir = rootPath → 2 ≤ index) (listed : listedEntry entries dir index = some e)
    (member : e' ∈ entriesIn entries dir) (same : e'.name = e.name) : e' = e := by
  obtain ⟨n, atN⟩ := List.mem_iff_getElem?.mp member
  have listed' : listedEntry entries dir (if dir = rootPath then n + 2 else n) = some e' := by
    rw [listedEntry]
    split <;> exact atN
  have tabled' : dir = rootPath → 2 ≤ if dir = rootPath then n + 2 else n := by
    intro isRoot
    rw [if_pos isRoot]
    exact Nat.le_add_left 2 n
  have reported : e'.dirent.name = e.dirent.name := by rw [RootEntry.dirent, RootEntry.dirent, same]
  have sameIndex := distinct _ index _ _ (blockfsList_listedEntry tabled' listed')
    (blockfsList_listedEntry tabled listed) reported
  rw [sameIndex, listed] at listed'
  exact (Option.some.inj listed').symm

/-- A listed entry is the one that its path leads to, if the path can be taken apart. -/
theorem lookup_listed
    (absolute : dir.head? = some slash) (plain : PlainNames entries dir) (distinct : DistinctNames entries dir)
    (tabled : dir = rootPath → 2 ≤ index) (listed : listedEntry entries dir index = some e) :
    (findExfatRootEntry entries (childPath dir e.name)).bind (entries[·]?) =
      if e.name ≠ [] ∧ (dir = rootPath ∨ dir.length ≤ 62) then some e else none := by
  have member := List.mem_of_getElem? listed
  obtain ⟨inTable, ofDir⟩ := mem_entriesIn.mp member
  obtain ⟨short, noSlash⟩ := plain e member
  have splits := splitPath_childPath absolute short noSlash
  split
  · rename_i fits
    rw [if_pos fits] at splits
    cases found : findExfatRootEntry entries (childPath dir e.name) with
    | none =>
      simp only [findExfatRootEntry, splits, List.findIdx?_eq_none_iff] at found
      simpa [ofDir] using found e inTable
    | some i =>
      obtain ⟨parent, name, isSplit, e', first⟩ := findExfatRootEntry_eq_some.mp found
      rw [splits] at isSplit
      cases isSplit
      have passes := first.passes
      simp only [Bool.and_eq_true, beq_iff_eq] at passes
      have member' := mem_entriesIn.mpr ⟨List.mem_of_getElem? first.here, passes.1⟩
      rw [Option.bind_some, first.here, distinct.unique tabled listed member' passes.2]
  · rename_i unfit
    rw [if_neg unfit] at splits
    simp [findExfatRootEntry, splits]

def mountedPath (mount path : Bytes) : Bytes := if mount = [slash] then path else mount ++ path

section Exists

variable {σ : Type} {table : List (Filesystem σ)} {v : Filesystem σ} {s : σ}

theorem dispatch_read_isSome (member : v ∈ table)
    (reached : mountPathMatches v path) (reads : (v.read (mountLocalPath v path) offset len s).isSome) :
    (dispatch (readCall offset len) path table s).1.isSome := by
  induction table with
  | nil => cases member
  | cons fs rest ih =>
    cases isReached : mountPathMatches fs path with
    | false =>
      rw [dispatch_skip (.inr isReached)]
      rcases List.mem_cons.mp member with rfl | later
      · rw [reached] at isReached
        cases isReached
      · exact ih later
    | true =>
      cases read : fs.read (mountLocalPath fs path) offset len s with
      | some bytes =>
        have done : (fs.read (mountLocalPath fs path) offset len s, s) = (some bytes, s) := by rw [read]
        rw [dispatch_done rfl isReached done]
        rfl
      | none =>
        have failed : (fs.read (mountLocalPath fs path) offset len s, s) = (none, s) := by rw [read]
        rw [dispatch_failed rfl isReached failed]
        rcases List.mem_cons.mp member with rfl | later
        · rw [read] at reads
          cases reads
        · exact ih later

theorem vfsFileExists_mounted (member : v ∈ table) (mounted : v.path.head? = some slash)
    (absolute : path.head? = some slash) (reads : (v.read path 0 0 s).isSome) :
    vfsFileExists table (mountedPath v.path path) s := by
  have reached : mountPathMatches v (mountedPath v.path path) := by
    rw [mountPathMatches_iff, mountedPath]
    split
    · rename_i atRoot
      exact ⟨absolute, .inl atRoot⟩
    · exact ⟨by rw [List.head?_append, mounted]; rfl, .inr ⟨path, rfl, .inr absolute⟩⟩
  have isLocal : mountLocalPath v (mountedPath v.path path) = path := by
    rw [mountLocalPath, mountedPath]
    split
    · rfl
    · rw [List.drop_left, if_neg]
      rintro rfl
      cases absolute
  rw [vfsFileExists, vfsReadFile, Option.isSome_map]
  exact dispatch_read_isSome member reached (by rw [isLocal]; exact reads)

end Exists

/-- A file can be opened: it can be read and has a size, and it exists wherever the volume is mounted. -/
structure Opens (pieces : List Bytes) (m : BlockfsMount) (fs : Fs) (path : Bytes) : Prop where
  read : (blockfsRead pieces m path 0 0 fs).isSome
  sized : blockfsSize pieces path fs ≠ u64Max
  found : ∀ (σ : Type) (table : List (Filesystem σ)) (v : Filesystem σ) (s : σ), v ∈ table →
    v.path.head? = some slash → v.read path 0 0 s = blockfsRead pieces m path 0 0 fs →
      vfsFileExists table (mountedPath v.path path) s

def ReaderTakes (m : BlockfsMount) (e : RootEntry) : Prop :=
  m.fat32.present ∨
    exfatClusterValid m.exfatMount e.firstCluster ∧ m.exfatMount.clusterSize ≠ 0

def CanOpen (m : BlockfsMount) (fs : Fs) (dir : Bytes) (index : Nat) : Prop :=
  if dir = rootPath ∧ index = 0 then True
  else if dir = rootPath ∧ index = 1 then m.blockSize = 512 ∧ fs.dev.accepts 0
  else
    ∃ e, listedEntry fs.rootEntries dir index = some e ∧
      (e.name ≠ [] ∧ (dir = rootPath ∨ dir.length ≤ 62)) ∧ e.size ≠ u64Max ∧ ReaderTakes m e

theorem opens_iff (absolute : path.head? = some slash) :
    Opens pieces m fs path ↔
      (blockfsRead pieces m path 0 0 fs).isSome ∧ blockfsSize pieces path fs ≠ u64Max := by
  constructor
  · intro opens
    exact ⟨opens.read, opens.sized⟩
  · rintro ⟨read, sized⟩
    refine ⟨read, sized, fun σ table v s member mounted same => ?_⟩
    exact vfsFileExists_mounted member mounted absolute (by rw [same]; exact read)

theorem readExfatRootFile_isSome (file : e.isDir = false) :
    (readExfatRootFile m d e 0 0).isSome ↔
      exfatClusterValid m e.firstCluster ∧ m.clusterSize ≠ 0 := by
  simp only [readExfatRootFile, file]
  cases exfatClusterValid m e.firstCluster <;> by_cases sized : m.clusterSize = 0 <;> simp [sized]

theorem opens_info : Opens pieces m fs (slash :: infoName) := by
  have short := buildInfo_length pieces
  rw [opens_iff rfl, blockfsRead, blockfsSize, if_pos rfl, if_pos rfl]
  refine ⟨rfl, ?_⟩
  simp only [blockfsInfoMax, u64Max] at short ⊢
  omega

theorem opens_sectorZero : Opens pieces m fs (slash :: sectorZeroName) ↔ m.blockSize = 512 ∧ fs.dev.accepts 0 := by
  have other : slash :: sectorZeroName ≠ slash :: infoName := by decide
  rw [opens_iff rfl, blockfsRead, blockfsSize, if_neg other, if_neg other]
  have sized : (512 : Nat) ≠ u64Max := by decide
  by_cases size : m.blockSize = 512 <;> simp [size, sized, blockRead]

theorem opens_looked_up (absolute : path.head? = some slash)
    (notInfo : path ≠ slash :: infoName) (notSector : path ≠ slash :: sectorZeroName)
    (looked : (findExfatRootEntry fs.rootEntries path).bind (fs.rootEntries[·]?) = found)
    (files : ∀ e, found = some e → e.isDir = false) :
    Opens pieces m fs path ↔ ∃ e, found = some e ∧ e.size ≠ u64Max ∧ ReaderTakes m e := by
  rw [opens_iff absolute, blockfsRead, blockfsSize, if_neg notInfo, if_neg notSector, if_neg notInfo,
    if_neg notSector, looked]
  cases found with
  | none => simp
  | some e =>
    simp only [Option.some.injEq, exists_eq_left', ReaderTakes]
    by_cases isFat : m.fat32.present
    · simp [isFat]
    · rw [if_neg isFat, readExfatRootFile_isSome (files e rfl), and_comm]
      simp [isFat]

/-- A listed file can be opened exactly if its path can be looked up again and the reader of the volume
    accepts the entry. -/
theorem listed_files_open_iff (pieces : List Bytes) (m : BlockfsMount) (fs : Fs) (dir : Bytes) (index : Nat)
    (file : Dirent) (absolute : dir.head? = some slash) (plain : PlainNames fs.rootEntries dir)
    (distinct : DistinctNames fs.rootEntries dir)
    (listed : blockfsList dir index fs.rootEntries = some (some file)) (regular : file.type = .file) :
    Opens pieces m fs (childPath dir file.name) ↔ CanOpen m fs dir index := by
  have infoListed : dir = rootPath → blockfsList dir 0 fs.rootEntries =
      some (some { name := infoName, type := .file, size := 0 }) := by
    rintro rfl
    rfl
  have sectorListed : dir = rootPath → blockfsList dir 1 fs.rootEntries =
      some (some { name := sectorZeroName, type := .file, size := 512 }) := by
    rintro rfl
    rfl
  rcases blockfsList_cases listed with ⟨isRoot, first, name⟩ | ⟨isRoot, second, name⟩ | ⟨tabled, e, isEntry, rfl⟩
  · rw [CanOpen, if_pos ⟨isRoot, first⟩, name, childPath, if_pos isRoot, iff_true]
    exact opens_info
  · rw [CanOpen, if_neg (by omega), if_pos ⟨isRoot, second⟩, name, childPath, if_pos isRoot]
    exact opens_sectorZero
  · obtain ⟨short, noSlash⟩ := plain e (List.mem_of_getElem? isEntry)
    have whole : e.dirent.name = e.name := List.take_of_length_le (Nat.le_of_lt_succ short)
    have isFile : e.isDir = false := by
      cases kind : e.isDir with
      | false => rfl
      | true => simp [RootEntry.dirent, kind] at regular
    -- a file of the volume with one of the two made-up names would be listed twice
    have notInfo : childPath dir e.name ≠ slash :: infoName := by
      rw [Ne, childPath_eq_root absolute (by decide)]
      rintro ⟨isRoot, same⟩
      have behind := tabled isRoot
      have again := distinct index 0 _ _ listed (infoListed isRoot) (whole.trans same)
      omega
    have notSector : childPath dir e.name ≠ slash :: sectorZeroName := by
      rw [Ne, childPath_eq_root absolute (by decide)]
      rintro ⟨isRoot, same⟩
      have behind := tabled isRoot
      have again := distinct index 1 _ _ listed (sectorListed isRoot) (whole.trans same)
      omega
    have begins : (childPath dir e.name).head? = some slash := by
      rw [childPath]
      split
      · rfl
      · rw [List.head?_append, absolute]
        rfl
    have looked := lookup_listed absolute plain distinct tabled isEntry
    rw [whole, CanOpen, if_neg, if_neg, opens_looked_up begins notInfo notSector looked]
    · split <;> simp [*]
    · intro e' same
      split at same <;> cases same
      exact isFile
    · rintro ⟨isRoot, second⟩
      have behind := tabled isRoot
      omega
    · rintro ⟨isRoot, first⟩
      have behind := tabled isRoot
      omega

/-- `/D`. -/
def directoryD : Bytes := [slash, 0x44]

/-- A directory with one file `A`, as it is mounted. -/
def oneFile (firstCluster size : Nat) : Fs where
  rootEntries := (parseExfatDirectorySector
    (Buf.zero.write 0 ((encodeExfatFileEntries [0x41] firstCluster size).slice 0 96)) directoryD
      { bitmap := {}, entries := [] }).entries
  dev := blankDevice

def sixteenMounted : BlockfsMount := { blockSize := 512, exfat := sixteenClusters.exfat }

theorem distinctNames_single (single : (entriesIn entries directoryD).length = 1) :
    DistinctNames entries directoryD := by
  have first {i : Nat} {a : Dirent} (listed : blockfsList directoryD i entries = some (some a)) : i = 0 := by
    rcases blockfsList_cases listed with ⟨isRoot, -⟩ | ⟨isRoot, -⟩ | ⟨-, e, isEntry, -⟩
    · exact absurd isRoot (by decide)
    · exact absurd isRoot (by decide)
    · have inside := (List.getElem?_eq_some_iff.mp isEntry).1
      rw [if_neg (by decide)] at inside
      omega
  intro i j a b listed listed' _
  rw [first listed, first listed']

theorem listed_files_open_five :
    Opens [] sixteenMounted (oneFile 3 5) [slash, 0x44, slash, 0x41] ↔
      CanOpen sixteenMounted (oneFile 3 5) directoryD 0 :=
  listed_files_open_iff [] sixteenMounted (oneFile 3 5) directoryD 0 { name := [0x41], type := .file, size := 5 }
    rfl (by unfold PlainNames; decide +kernel) (distinctNames_single (by decide +kernel)) (by decide +kernel) rfl

/-- An empty file, which has no cluster, is listed and cannot be opened. -/
theorem empty_file_does_not_open :
    PlainNames (oneFile 0 0).rootEntries directoryD ∧ DistinctNames (oneFile 0 0).rootEntries directoryD ∧
      blockfsList directoryD 0 (oneFile 0 0).rootEntries =
        some (some { name := [0x41], type := .file, size := 0 }) ∧
      ¬Opens [] sixteenMounted (oneFile 0 0) (childPath directoryD [0x41]) := by
  refine ⟨by unfold PlainNames; decide +kernel, distinctNames_single (by decide +kernel), by decide +kernel,
    fun opens => ?_⟩
  have refused : blockfsRead [] sixteenMounted (childPath directoryD [0x41]) 0 0 (oneFile 0 0) = none := by
    decide +kernel
  have read := opens.read
  rw [refused] at read
  cases read

end TangPingOS
