import TangPingOS.Exfat.Deleting
import TangPingOS.Exfat.Failing
import TangPingOS.Exfat.Locality

/-! # Files as byte strings

A file that may be written has clusters up to its capacity and holds a byte string up to its
size. What lies between the two is not wiped when a file gets shorter, nor when the mount makes
`NEW.TXT`, and it comes to light when the file grows over it. A history of a file is one of a
byte string with zero fill exactly if no call makes the file grow over bytes other than zeros.
-/

namespace TangPingOS

open Lib

variable {content path : Bytes} {fs : Fs} {m : Mount} {i pos size : Nat} {e : RootEntry} {w w' : World}

namespace FileOp

def onBytes (content : Bytes) : FileOp → Bytes
  | .write _ offset data => overwrite content offset data
  | .truncate _ size => resize content size
  | .unlink _ => content

def grow (size : Nat) : FileOp → Nat
  | .write _ offset data => max size (offset + data.length)
  | .truncate _ newSize => newSize
  | .unlink _ => size

def put (bytes : Nat → UInt8) (pos : Nat) : FileOp → UInt8
  | .write _ offset data =>
    if offset ≤ pos ∧ pos < offset + data.length then data.getD (pos - offset) 0 else bytes pos
  | .truncate _ _ => bytes pos
  | .unlink _ => bytes pos

/-- How far it lets the file grow over bytes that it does not write. -/
def reach : FileOp → Nat
  | .write _ offset _ => offset
  | .truncate _ size => size
  | .unlink _ => 0

theorem length_onBytes (op : FileOp) : (op.onBytes content).length = op.grow content.length := by
  cases op with
  | write path offset data => exact length_overwrite
  | truncate path size => exact length_resize
  | unlink path => rfl

theorem getD_onBytes {op : FileOp} (inside : pos < op.grow content.length) :
    (op.onBytes content).getD pos 0 = op.put (fun k => content.getD k 0) pos := by
  cases op with
  | write path offset data => exact getD_overwrite
  | truncate path size => exact getD_resize inside
  | unlink path => rfl

/-- Sequences that agree up to a size agree afterwards if they do so on what the call grows over. -/
theorem put_eq_iff (same : ∀ pos < size, a pos = b pos) (op : FileOp) :
    (∀ pos < op.grow size, op.put a pos = op.put b pos) ↔
      ∀ pos, size ≤ pos → pos < op.reach → a pos = b pos := by
  cases op with
  | write path offset data =>
    constructor
    · intro agree pos behind before
      have before : pos < offset := before
      have here := agree pos (Nat.lt_of_lt_of_le (by omega) (Nat.le_max_right size (offset + data.length)))
      simp only [put] at here
      rwa [if_neg (by omega), if_neg (by omega)] at here
    · intro agree pos inside
      have inside : pos < max size (offset + data.length) := inside
      simp only [put]
      split
      · rfl
      · by_cases held : pos < size
        · exact same pos held
        · exact agree pos (Nat.not_lt.mp held) (by show pos < offset; omega)
  | truncate path newSize =>
    constructor
    · intro agree pos _ before
      exact agree pos before
    · intro agree pos inside
      by_cases held : pos < size
      · exact same pos held
      · exact agree pos (Nat.not_lt.mp held) inside
  | unlink path => exact ⟨fun _ pos _ before => absurd before (Nat.not_lt_zero pos), fun _ => same⟩

end FileOp

/-! ## Histories of a file -/

def FileOp.succeeds (m : Mount) (fs : Fs) : FileOp → Bool
  | .write path offset data => (blockfsWrite m fs path offset data).2.isSome
  | .truncate path size => (blockfsTruncate m fs path size).2
  | .unlink path => (blockfsUnlink m fs path).2

/-- The byte string of the file at index `i` after a call. A call is on the file if its path leads to
    the file afterwards. -/
def FileOp.track (m : Mount) (fs : Fs) (i : Nat) (content : Bytes) (op : FileOp) : Bytes :=
  if findExfatRootEntry (op.run m fs).rootEntries op.path = some i then op.onBytes content else content

/-- On every path that leads to the file, `blockfs_read` returns the byte string. -/
def Holds (m : Mount) (fs : Fs) (i : Nat) (content : Bytes) : Prop :=
  ∀ e, fs.Live i e → ∀ path, findExfatRootEntry fs.rootEntries path = some i → ∀ pieces offset bufferLen,
    blockfsRead pieces m.blockfs path offset bufferLen fs = some ((content.drop offset).take bufferLen)

def BehavesAs (m : Mount) (i : Nat) : List FileOp → Fs → Bytes → Prop
  | [], fs, content => Holds m fs i content
  | op :: ops, fs, content =>
    Holds m fs i content ∧ BehavesAs m i ops (op.run m fs) (op.track m fs i content)

def trackAll (m : Mount) (i : Nat) : List FileOp → Fs → Bytes → Bytes
  | [], _, content => content
  | op :: ops, fs, content => trackAll m i ops (op.run m fs) (op.track m fs i content)

theorem BehavesAs.final
    (behaves : BehavesAs m i ops fs content) : Holds m (runOps m fs ops) i (trackAll m i ops fs content) := by
  induction ops generalizing fs content with
  | nil => exact behaves
  | cons op ops ih => exact ih behaves.2

section

variable (m : Mount)

def AllSucceed : List FileOp → Fs → Prop
  | [], _ => True
  | op :: ops, fs => op.succeeds m fs ∧ AllSucceed ops (op.run m fs)

def diskByte (d : Device) (e : RootEntry) (pos : Nat) : Option UInt8 :=
  (exfatFileSector m d e pos).map fun lba => (d.data lba).get (pos % 512)

/-- Behind its end the file has zeros up to `stop`, as far as its clusters go. -/
def ZerosBehind (fs : Fs) (i stop : Nat) : Prop :=
  ∀ e pos, fs.rootEntries[i]? = some e → e.size ≤ pos → pos < stop → pos < e.capacity →
    diskByte m fs.dev e pos = some 0

/-- The call is on the file at index `i`: its path leads there, or it takes the file over as `NEW.TXT`. -/
def FileOp.Targets (fs : Fs) (i : Nat) : FileOp → Prop
  | .write path _ _ => findExfatRootEntry fs.rootEntries path = some i
  | .truncate path _ => findExfatRootEntry fs.rootEntries path = some i ∨ ∃ e name, Renames m fs path i e name
  | .unlink _ => False

/-- The call does not make the file grow over bytes other than zeros. -/
def FileOp.Clean (fs : Fs) (i : Nat) (op : FileOp) : Prop :=
  op.Targets m fs i → ZerosBehind m fs i op.reach

def AllClean (i : Nat) : List FileOp → Fs → Prop
  | [], _ => True
  | op :: ops, fs => op.Clean m fs i ∧ AllClean i ops (op.run m fs)

/-! ## What a call does -/

/-- The files at other indices are as they were. -/
structure OthersKept (i : Nat) (w w' : World) : Prop where
  entries : ∀ j e, j ≠ i → w.fs.rootEntries[j]? = some e → w'.fs.rootEntries[j]? = some e
  cells : ∀ j, j ≠ i → w'.cells j = w.cells j
  clusters : ∀ j x, j ≠ i → x ∈ w.cells j → SameCluster m w.fs.dev w'.fs.dev x

end

theorem LocalTo.othersKept (change : LocalTo m i w w') : OthersKept m i w w' :=
  ⟨change.entries, change.cells, change.clusters⟩

theorem OthersKept.trans {w'' : World} (first : OthersKept m i w w')
    (second : OthersKept m i w' w'') : OthersKept m i w w'' where
  entries j e other found := second.entries j e other (first.entries j e other found)
  cells j other := (second.cells j other).trans (first.cells j other)
  clusters j x other member :=
    (first.clusters j x other member).trans (second.clusters j x other ((first.cells j other).symm ▸ member))

/-- A write or a truncate has succeeded on the file at index `i`, which is `e` now. -/
structure Called (m : Mount) (d₀ : Device) (w : World) (op : FileOp) (w' : World) (i : Nat) (e : RootEntry) :
    Prop where
  table : Table m d₀ w'.fs w'.cells
  leads : findExfatRootEntry w'.fs.rootEntries op.path = some i
  live : w'.fs.Live i e
  others : OthersKept m i w w'
  targets : ∀ j, op.Targets m w.fs j → j = i
  /-- The file was there already, or it is new. -/
  before : (∃ old, w.fs.Live i old ∧ op.Targets m w.fs i ∧ e.size = op.grow old.size) ∨
    w.fs.rootEntries[i]? = none ∧ e.size = op.grow 0
  bytes : ∀ pos < e.size, fileByte m (w'.cells i) w'.fs.dev pos = op.put (storedByte m w i) pos

/-- The size of the file at index `i` has been set, and nothing else. -/
structure Resized (m : Mount) (d₀ : Device) (w : World) (i : Nat) (e : RootEntry) (size : Nat) (fs' : Fs) :
    Prop where
  table : Table m d₀ fs' w.cells
  live : fs'.Live i { e with size := size }
  change : LocalTo m i w ⟨fs', w.cells⟩
  fits : size ≤ e.capacity
  bytes : ∀ pos < (w.cells i).length * m.clusterSize,
    fileByte m (w.cells i) fs'.dev pos = fileByte m (w.cells i) w.fs.dev pos

theorem Resized.called (resized : Resized m d₀ w i e size fs')
    (found : findExfatRootEntry w.fs.rootEntries path = some i) (others : OthersKept m i ⟨fs, cells⟩ w)
    (targets : ∀ j, (FileOp.truncate path size).Targets m fs j → j = i)
    (before : (∃ old, fs.Live i old ∧ (FileOp.truncate path size).Targets m fs i) ∨ fs.rootEntries[i]? = none)
    (stored : ∀ pos < e.capacity, fileByte m (w.cells i) w.fs.dev pos = storedByte m ⟨fs, cells⟩ i pos) :
    Called m d₀ ⟨fs, cells⟩ (.truncate path size) ⟨fs', w.cells⟩ i { e with size} := by
  have ok := resized.table.entries i _ resized.live.1 resized.live.2
  refine ⟨resized.table, resized.change.lookups path i found, resized.live,
    others.trans resized.change.othersKept, targets, ?_, fun pos inside => ?_⟩
  · obtain ⟨old, live, target⟩ | new := before
    · exact .inl ⟨old, live, target, rfl⟩
    · exact .inr ⟨new, rfl⟩
  · have below : pos < e.capacity := Nat.lt_of_lt_of_le inside resized.fits
    have capacity := ok.capacity
    rw [resized.bytes pos (capacity ▸ below), stored pos below]
    rfl

section Calls

variable {d₀ : Device} (ground : Ground m d₀) (low : ∀ c, exfatClusterValid m c → c < 0xfffffff8)
  (ready : m.exfat.commit.ready) {fs' : Fs} {cells : Nat → List Nat} (table : Table m d₀ fs cells)

include ground table

/-- Writing into the directory leaves the bytes of the files. -/
theorem fileByte_entered (atIndex : fs.rootEntries[i]? = some e)
    (writable : e.writable) (s : Sector) (inside : pos < (cells i).length * m.clusterSize) :
    fileByte m (cells i) (fs.dev.put e.directoryLba s) pos = fileByte m (cells i) fs.dev pos := by
  obtain ⟨k, b, j, chain, within, isLba⟩ := (table.entries i e atIndex writable).directory
  rw [isLba]
  refine fileByte_congr (table.volume ground) (fun c member => ?_) inside
  exact (SameCluster.put_root ground table.agree (table.cell_valid member) (table.cell_not_reserved ground member)
    chain within).data

include ready

theorem truncateEntry_resized (atIndex : fs.rootEntries[i]? = some e)
    (done : truncateEntry m fs i e size = (fs', true)) : e.writable ∧ Resized m d₀ ⟨fs, cells⟩ i e size fs' := by
  simp only [truncateEntry] at done
  split at done
  · cases done
  rename_i checks
  simp only [Bool.or_eq_true, not_or, Bool.not_eq_true, Bool.not_eq_false', decide_eq_true_eq] at checks
  have writable : e.writable := checks.1.1.2
  have fits : size ≤ e.capacity := Nat.not_lt.mp checks.1.2
  have ok := table.entries i e atIndex writable
  rw [refreshExfatTestFileSize_eq ground table.agree ok ready writable] at done
  by_cases refused : e.capacity < size ∨ (fs.dev.data e.directoryLba).get e.directoryByteOffset ≠ 0x85 ∨
      (fs.dev.data e.directoryLba).get (e.directoryByteOffset + 32) ≠ 0xc0
  · simp only [refused] at done
    cases done
  · simp only [refused] at done
    cases done
    exact ⟨writable, table.putEntry ground atIndex writable _ writable { ok with size := fits },
      ⟨List.getElem?_set_self (List.getElem?_eq_some_iff.mp atIndex).1, writable⟩,
      .resize ground table atIndex writable, fits,
      fun pos inside => fileByte_entered ground table atIndex writable _ inside⟩

include low

theorem blockfsWrite_called (done : blockfsWrite m fs path offset data = (fs', some n)) :
    ∃ cells' i e, Called m d₀ ⟨fs, cells⟩ (.write path offset data) ⟨fs', cells'⟩ i e := by
  obtain ⟨w, i, e, provided, loop⟩ := blockfsWrite_provided ground low table ready done
  have prepared := provided.toPrepared
  have wrote := writeFileData_wrote ground low ready prepared.table prepared.atIndex prepared.writable
    prepared.room loop
  have ok := prepared.table.entries i e prepared.atIndex prepared.writable
  refine ⟨w.cells, i, _, wrote.table, wrote.found prepared, ⟨wrote.atIndex, prepared.writable⟩,
    (prepared.change.trans wrote.change).othersKept, ?_, ?_, ?_⟩
  · intro j leads
    exact Option.some.inj ((prepared.change.lookups path j leads).symm.trans prepared.found)
  · obtain leads | ⟨new, empty⟩ := provided.origin
    · obtain ⟨_, _, _, old, first⟩ := findExfatRootEntry_eq_some.mp leads
      obtain ⟨writable, size, -⟩ := prepared.before old first.here
      refine .inl ⟨old, ⟨first.here, writable⟩, leads, ?_⟩
      show max e.size _ = max old.size _
      rw [size]
    · refine .inr ⟨new, ?_⟩
      show max e.size _ = max 0 _
      rw [empty]
  · intro pos inside
    have inside : pos < max e.size (offset + data.length) := inside
    have size := ok.size
    have room := prepared.room
    have below : pos < e.capacity := by omega
    rw [ok.capacity] at below
    refine (wrote.bytes pos below).trans ?_
    rw [← ok.capacity] at below
    show _ = if _ then _ else _
    rw [provided.stored pos below]

omit low in
/-- A truncate that succeeds has found the file, has taken it over or has created it. -/
theorem blockfsTruncate_called (done : blockfsTruncate m fs path size = (fs', true)) :
    ∃ cells' i e, Called m d₀ ⟨fs, cells⟩ (.truncate path size) ⟨fs', cells'⟩ i e := by
  cases found : findExfatRootEntry fs.rootEntries path with
  | some i =>
    obtain ⟨_, _, _, e, first⟩ := findExfatRootEntry_eq_some.mp found
    have atIndex := first.here
    simp only [blockfsTruncate, ready, found, atIndex, Bool.not_true, Bool.false_eq_true, if_false] at done
    obtain ⟨writable, resized⟩ := truncateEntry_resized ground ready table atIndex done
    refine ⟨cells, i, _, resized.called found (LocalTo.refl _).othersKept ?_
      (.inl ⟨e, ⟨atIndex, writable⟩, .inl found⟩) fun pos inside => ?_⟩
    · rintro j (leads | ⟨_, _, renames⟩)
      · exact Option.some.inj (leads.symm.trans found)
      · have absent := renames.absent
        rw [found] at absent
        cases absent
    · simp only [storedByte, atIndex, if_pos inside]
  | none =>
    by_cases refused : exfatTestClusterCountForSize m size = 0
    · rw [blockfsTruncate_absent ready found, if_pos refused] at done
      cases done
    by_cases renamed : ∃ i e name, Renames m fs path i e name
    · obtain ⟨i, e, name, renames⟩ := renamed
      have table' : Table m d₀ (renamedFs fs i e name) cells :=
        Table.step ground (.rename (w := ⟨fs, cells⟩) renames) table
      have ok := table.entries i e renames.atIndex renames.writable
      rw [blockfsTruncate_renames ground table ready found renames refused] at done
      obtain ⟨-, resized⟩ := truncateEntry_resized ground ready table' renames.renamed done
      have others : OthersKept m i ⟨fs, cells⟩ ⟨renamedFs fs i e name, cells⟩ :=
        ⟨LocalTo.entries_set, fun _ _ => rfl, fun _ _ other member =>
          (table.foreign ground other member).entered ground table renames.atIndex renames.writable _⟩
      refine ⟨cells, i, _, resized.called (renames.found table found) others ?_
        (.inl ⟨e, ⟨renames.atIndex, renames.writable⟩, .inr ⟨e, name, renames⟩⟩) fun pos inside => ?_⟩
      · rintro j (leads | ⟨_, _, renames'⟩)
        · rw [found] at leads
          cases leads
        · exact Option.some.inj (renames'.first.symm.trans renames.first)
      · have inside : pos < e.capacity := inside
        simp only [storedByte, renames.atIndex, if_pos inside]
        rw [ok.capacity] at inside
        exact fileByte_entered ground table renames.atIndex renames.writable _ inside
    · have none : ∀ i e name, ¬Renames m fs path i e name := fun i e name renames => renamed ⟨i, e, name, renames⟩
      rw [blockfsTruncate_absent ready found, if_neg refused, makeMissingFile,
        renameExfatTestFile_refused ready found none] at done
      simp only [createExfatTestFileWithClusters_eq ground table.agree ready] at done
      cases plan : planCreation m fs path (exfatTestClusterCountForSize m size) with
      | none =>
        rw [plan] at done
        cases done
      | some c =>
        simp only [plan] at done
        by_cases full : maxRootEntries ≤ fs.rootEntries.length
        · simp only [if_pos full] at done
          cases done
        have fits := planCreation_fits ground table.agree plan
        have provided : Provided m d₀ ⟨fs, cells⟩ path size _ _ _ := .create ground table plan fits
        simp only [if_neg full, provided.found, provided.atIndex] at done
        obtain ⟨-, resized⟩ := truncateEntry_resized ground ready provided.table provided.atIndex done
        refine ⟨_, _, _, resized.called provided.found provided.change.othersKept ?_
          (.inr (List.getElem?_eq_none (Nat.le_refl _))) provided.stored⟩
        rintro j (leads | ⟨e, name, renames⟩)
        · rw [found] at leads
          cases leads
        · exact absurd renames (none j e name)

omit low in
theorem blockfsUnlink_removed (done : blockfsUnlink m fs path = (fs', true)) :
    ∃ cells' i, Table m d₀ fs' cells' ∧ fs'.rootEntries = fs.rootEntries.set i {} ∧
      OthersKept m i ⟨fs, cells⟩ ⟨fs', cells'⟩ := by
  cases parsed : parseExfatTestShortName path with
  | none =>
    rw [blockfsUnlink, unlink_refused (.inl parsed)] at done
    cases done
  | some name =>
    by_cases there : ∃ i e, findExfatRootEntry fs.rootEntries path = some i ∧ fs.rootEntries[i]? = some e ∧
        e.writable
    · obtain ⟨i, e, found, atIndex, writable⟩ := there
      have ok := table.entries i e atIndex writable
      obtain ⟨kept, begins, present, collected, -⟩ := collect_kept ground table atIndex writable
      rw [blockfsUnlink, unlinkExfatTestFile_eq ground table.agree ok writable
        (Nat.le_trans begins.length_le ok.few) (fun b member => ok.valid b (begins.subset member)) present ready
        (by rw [parsed]; rfl) found atIndex collected] at done
      split at done
      · rename_i deletable
        cases done
        have step : Step m d₀ ⟨fs, cells⟩ _ := .unlink atIndex writable begins deletable.1
        refine ⟨_, i, Table.step ground step table, rfl, LocalTo.entries_set,
          fun j other => Function.update_of_ne other _ _, fun j x other member => ?_⟩
        exact (table.foreign ground other member).unlinked ground table atIndex writable begins
      · cases done
    · rw [blockfsUnlink, unlink_refused (.inr fun i e found atIndex good => there ⟨i, e, found, atIndex, good.1⟩)]
        at done
      cases done

end Calls

/-! ## The byte string on disk -/

def Content (m : Mount) (fs : Fs) (i : Nat) (content : Bytes) : Prop :=
  ∀ e, fs.Live i e → e.size = content.length ∧
    ∀ pos < e.size, diskByte m fs.dev e pos = some (content.getD pos 0)

section Contents

variable {d₀ : Device} (ground : Ground m d₀) (low : ∀ c, exfatClusterValid m c → c < 0xfffffff8)
  {fs' : Fs} {cells cells' : Nat → List Nat} (table : Table m d₀ fs cells)

include ground low table

theorem diskByte_eq (live : fs.Live i e) (inside : pos < e.capacity) :
    diskByte m fs.dev e pos = some (fileByte m (cells i) fs.dev pos) := by
  have ok := table.entries i e live.1 live.2
  rw [ok.capacity] at inside
  rw [diskByte, exfatFileSector_eq (table.volume ground) ok (table.owns.linked i) (table.followable low) inside]
  rfl

theorem content_iff (live : fs.Live i e) :
    Content m fs i content ↔ e.size = content.length ∧
      ∀ pos < content.length, fileByte m (cells i) fs.dev pos = content.getD pos 0 := by
  have size := (table.entries i e live.1 live.2).size
  constructor
  · intro holds
    obtain ⟨length, bytes⟩ := holds e live
    refine ⟨length, fun pos inside => ?_⟩
    have here := bytes pos (by omega)
    rwa [diskByte_eq ground low table live (by omega), Option.some.injEq] at here
  · rintro ⟨length, bytes⟩ x live'
    obtain rfl := Option.some.inj (live.1.symm.trans live'.1)
    refine ⟨length, fun pos inside => ?_⟩
    rw [diskByte_eq ground low table live (by omega), bytes pos (by omega)]

theorem Fs.Live.read_eq (live : fs.Live i e) :
    readExfatRootFile m fs.dev e offset bufferLen =
      some (window (fileByte m (cells i) fs.dev) offset (min bufferLen (e.size - offset))) := by
  have ok := table.entries i e live.1 live.2
  have vol := table.volume ground
  by_cases filled : 0 < e.size
  · exact ok.read_eq vol (table.owns.linked i) (table.followable low) filled
  · have empty : e.size = 0 := Nat.eq_zero_of_not_pos filled
    have valid := ok.valid _ (List.mem_of_mem_head? ok.first)
    have sized : (m.clusterSize == 0) = false := by simp [Nat.ne_of_gt vol.clusterSize_pos]
    simp [readExfatRootFile, ok.file, valid, sized, empty]

theorem Content.holds (on : Content m fs i content)
    (names : ∀ e ∈ fs.rootEntries, e.writable → ShortName e.name) : Holds m fs i content := by
  intro e live path leads pieces offset bufferLen
  have short := names e (List.mem_of_getElem? live.1) live.2
  obtain ⟨size, bytes⟩ := (content_iff ground low table live).mp on
  rw [(blockfsRead_found (short.ne_info leads live.1) (short.ne_sectorZero leads live.1) leads live.1 pieces).1,
    live.read_eq ground low table, size, window_eq_take_drop _ bytes]

/-- What is read on a path that leads to the file is what its clusters hold. -/
theorem Holds.onDisk (holds : Holds m fs i content) (live : fs.Live i e)
    (leads : findExfatRootEntry fs.rootEntries path = some i) (short : ShortName e.name) :
    Content m fs i content := by
  have whole := holds e live path leads [] 0 (max e.size content.length)
  rw [(blockfsRead_found (short.ne_info leads live.1) (short.ne_sectorZero leads live.1) leads live.1 []).1,
    live.read_eq ground low table, Option.some.injEq, List.drop_zero, List.take_of_length_le (Nat.le_max_right _ _),
    Nat.sub_zero, Nat.min_eq_right (Nat.le_max_left _ _)] at whole
  refine (content_iff ground low table live).mpr ⟨?_, fun pos inside => ?_⟩
  · rw [← whole, length_window]
  · rw [← whole, length_window] at inside
    rw [← whole, List.getD_eq_getElem _ _ (by rw [length_window]; exact inside)]
    simp [window]

theorem OthersKept.keeps (others : OthersKept m j ⟨fs, cells⟩ ⟨fs', cells'⟩)
    (table' : Table m d₀ fs' cells') (other : i ≠ j) (present : fs.rootEntries[i]?.isSome)
    (on : Content m fs i content) : Content m fs' i content := by
  intro e live
  obtain ⟨x, atIndex⟩ := Option.isSome_iff_exists.mp present
  obtain rfl := Option.some.inj ((others.entries i x other atIndex).symm.trans live.1)
  have before : fs.Live i x := ⟨atIndex, live.2⟩
  have ok := table.entries i x atIndex live.2
  obtain ⟨size, bytes⟩ := (content_iff ground low table before).mp on
  refine (content_iff ground low table' live).mpr ⟨size, fun pos inside => ?_⟩ x live
  have room : pos < (cells i).length * m.clusterSize := by
    have fits := ok.size
    rw [ok.capacity] at fits
    omega
  rw [show cells' i = cells i from others.cells i other, ← bytes pos inside]
  exact fileByte_congr (table.volume ground) (fun c member => (others.clusters i c other member).data) room

/-- A call on the file makes of its byte string what it should, unless the file grows over bytes other
    than zeros. -/
theorem Called.content_iff (called : Called m d₀ ⟨fs, cells⟩ op ⟨fs', cells'⟩ i e)
    (new : fs.rootEntries[i]? = none → content = []) (on : Content m fs i content) :
    Content m fs' i (op.onBytes content) ↔ op.Clean m fs i := by
  have now (size : e.size = op.grow content.length) : Content m fs' i (op.onBytes content) ↔
      ∀ pos < op.grow content.length,
        op.put (storedByte m ⟨fs, cells⟩ i) pos = op.put (fun k => content.getD k 0) pos := by
    rw [TangPingOS.content_iff ground low called.table called.live, FileOp.length_onBytes]
    constructor
    · rintro ⟨-, bytes⟩ pos inside
      rw [← called.bytes pos (by omega), ← FileOp.getD_onBytes inside]
      exact bytes pos inside
    · intro bytes
      refine ⟨size, fun pos inside => ?_⟩
      rw [FileOp.getD_onBytes inside, ← bytes pos inside]
      exact called.bytes pos (by omega)
  obtain ⟨old, live, target, grown⟩ | ⟨absent, grown⟩ := called.before
  · have fits := (table.entries i old live.1 live.2).size
    obtain ⟨size, bytes⟩ := (TangPingOS.content_iff ground low table live).mp on
    have stored {pos : Nat} (inside : pos < old.capacity) :
        storedByte m ⟨fs, cells⟩ i pos = fileByte m (cells i) fs.dev pos := by
      simp only [storedByte, live.1, if_pos inside]
    have same : ∀ pos < content.length, storedByte m ⟨fs, cells⟩ i pos = content.getD pos 0 := by
      intro pos inside
      rw [stored (by omega), bytes pos inside]
    rw [now (by rw [grown, size]), FileOp.put_eq_iff same]
    constructor
    · intro zeros _ x pos atIndex behind before inside
      obtain rfl := Option.some.inj (live.1.symm.trans atIndex)
      have here := zeros pos (by omega) before
      rw [stored inside, List.getD_eq_default _ _ (by omega)] at here
      rw [diskByte_eq ground low table live inside, here]
    · intro clean pos behind before
      rw [List.getD_eq_default _ _ behind]
      by_cases inside : pos < old.capacity
      · have zero := clean target old pos live.1 (by omega) before inside
        rw [diskByte_eq ground low table live inside, Option.some.injEq] at zero
        rw [stored inside, zero]
      · simp only [storedByte, live.1, if_neg inside]
  · obtain rfl := new absent
    have zeros : storedByte m ⟨fs, cells⟩ i = fun k => ([] : Bytes).getD k 0 := by
      funext pos
      simp only [storedByte, absent]
      rfl
    rw [now grown, zeros]
    refine ⟨fun _ _ x pos atIndex => ?_, fun _ _ _ => rfl⟩
    rw [absent] at atIndex
    cases atIndex

end Contents

section Histories

variable {d₀ : Device} (ground : Ground m d₀) (low : ∀ c, exfatClusterValid m c → c < 0xfffffff8)
  (ready : m.exfat.commit.ready) {cells : Nat → List Nat} (table : Table m d₀ fs cells) {op : FileOp}
  (succeeds : op.succeeds m fs)

include ground low ready table succeeds

theorem FileOp.acts :
    (∃ cells' i e, Called m d₀ ⟨fs, cells⟩ op ⟨op.run m fs, cells'⟩ i e) ∨
    ((∃ path, op = .unlink path) ∧ ∃ cells' i, Table m d₀ (op.run m fs) cells' ∧
      (op.run m fs).rootEntries = fs.rootEntries.set i {} ∧
      OthersKept m i ⟨fs, cells⟩ ⟨op.run m fs, cells'⟩) := by
  cases op with
  | write path offset data =>
    obtain ⟨n, some_⟩ := Option.isSome_iff_exists.mp succeeds
    exact .inl (blockfsWrite_called ground low ready table (Prod.ext rfl some_))
  | truncate path size => exact .inl (blockfsTruncate_called ground ready table (Prod.ext rfl succeeds))
  | unlink path => exact .inr ⟨⟨path, rfl⟩, blockfsUnlink_removed ground ready table (Prod.ext rfl succeeds)⟩

theorem FileOp.tracked (names : ∀ e ∈ (op.run m fs).rootEntries, e.writable → ShortName e.name)
    (present : fs.rootEntries[i]?.isSome) (on : Content m fs i content) :
    (op.run m fs).rootEntries[i]?.isSome ∧
      (Content m (op.run m fs) i (op.track m fs i content) ↔ op.Clean m fs i) ∧
      (Holds m (op.run m fs) i (op.track m fs i content) →
        Content m (op.run m fs) i (op.track m fs i content)) := by
  have stays {j : Nat} {w' : World} (others : OthersKept m j ⟨fs, cells⟩ w') (other : i ≠ j) :
      w'.fs.rootEntries[i]?.isSome := by
    obtain ⟨x, atIndex⟩ := Option.isSome_iff_exists.mp present
    rw [others.entries i x other atIndex]
    rfl
  obtain ⟨cells', j, e, called⟩ | ⟨⟨path, rfl⟩, cells', j, table', blanked, others⟩ :=
    FileOp.acts ground low ready table succeeds
  · by_cases here : i = j
    · subst here
      have tracked : op.track m fs i content = op.onBytes content := if_pos called.leads
      rw [tracked]
      refine ⟨Option.isSome_iff_exists.mpr ⟨e, called.live.1⟩,
        called.content_iff ground low table (fun absent => ?_) on, fun holds => ?_⟩
      · rw [absent] at present
        cases present
      · exact holds.onDisk ground low called.table called.live called.leads
          (names e (List.mem_of_getElem? called.live.1) called.live.2)
    · have elsewhere : op.track m fs i content = content := by
        refine if_neg fun leads => here ?_
        exact Option.some.inj (leads.symm.trans called.leads)
      have kept := called.others.keeps ground low table called.table here present on
      rw [elsewhere]
      exact ⟨stays called.others here, ⟨fun _ target => absurd (called.targets i target) here, fun _ => kept⟩,
        fun _ => kept⟩
  · have tracked : (FileOp.unlink path).track m fs i content = content := ite_self content
    rw [tracked]
    by_cases here : i = j
    · subst here
      obtain ⟨inside, -⟩ := List.getElem?_eq_some_iff.mp (Option.isSome_iff_exists.mp present).choose_spec
      have blank : ((FileOp.unlink path).run m fs).rootEntries[i]? = some {} := by
        rw [blanked, List.getElem?_set_self inside]
      have gone : Content m ((FileOp.unlink path).run m fs) i content := by
        intro e live
        obtain rfl := Option.some.inj (blank.symm.trans live.1)
        cases live.2
      exact ⟨by rw [blank]; rfl, ⟨fun _ target => target.elim, fun _ => gone⟩, fun _ => gone⟩
    · have kept := others.keeps ground low table table' here present on
      exact ⟨stays others here, ⟨fun _ target => target.elim, fun _ => kept⟩, fun _ => kept⟩

theorem FileOp.created (absent : fs.rootEntries[i]? = none)
    (leads : findExfatRootEntry (op.run m fs).rootEntries op.path = some i) :
    (op.run m fs).rootEntries[i]?.isSome ∧ Content m (op.run m fs) i (op.track m fs i []) ∧ op.Clean m fs i := by
  have clean : op.Clean m fs i := by
    intro _ e pos atIndex
    rw [absent] at atIndex
    cases atIndex
  have nothing : Content m fs i [] := by
    intro e live
    have atIndex := live.1
    rw [absent] at atIndex
    cases atIndex
  have tracked : op.track m fs i [] = op.onBytes [] := if_pos leads
  obtain ⟨cells', j, e, called⟩ | ⟨⟨path, rfl⟩, cells', j, -, blanked, -⟩ :=
    FileOp.acts ground low ready table succeeds
  · obtain rfl := Option.some.inj (called.leads.symm.trans leads)
    rw [tracked]
    exact ⟨Option.isSome_iff_exists.mpr ⟨e, called.live.1⟩,
      (called.content_iff ground low table (fun _ => rfl) nothing).mpr clean, clean⟩
  · -- An unlink makes no entry.
    obtain ⟨_, _, _, x, first⟩ := findExfatRootEntry_eq_some.mp leads
    have inside := (List.getElem?_eq_some_iff.mp first.here).1
    rw [blanked, List.length_set] at inside
    rw [List.getElem?_eq_getElem inside] at absent
    cases absent

end Histories

theorem BehavesAs.holds (behaves : BehavesAs m i ops fs content) : Holds m fs i content := by
  cases ops with
  | nil => exact behaves
  | cons op ops => exact behaves.1

theorem runOps_snoc : runOps m fs (before ++ [op]) = op.run m (runOps m fs before) := by
  rw [runOps, List.foldl_append]
  rfl

section Runs

variable {d : Device} (start : Mounted d m fs) (low : ∀ c, exfatClusterValid m c → c < 0xfffffff8)

include start

theorem Mounted.shortNames (ops : List FileOp) :
    ∀ e ∈ (runOps m fs ops).rootEntries, e.writable → ShortName e.name := fun e member writable =>
  ((start.inherits ops).entries e member).shortName writable

include low

/-- From a state in which the clusters of the file hold its byte string. The two sides part company at
    the first call that is not clean. -/
theorem Mounted.history_iff (ops before : List FileOp) (present : (runOps m fs before).rootEntries[i]?.isSome)
    (on : Content m (runOps m fs before) i content) (done : AllSucceed m ops (runOps m fs before)) :
    BehavesAs m i ops (runOps m fs before) content ↔ AllClean m i ops (runOps m fs before) := by
  have ground := start.ground
  induction ops generalizing before content with
  | nil =>
    obtain ⟨cells, table⟩ := start.table before
    exact ⟨fun _ => trivial, fun _ => on.holds ground low table (start.shortNames before)⟩
  | cons op ops ih =>
    obtain ⟨cells, table⟩ := start.table before
    obtain ⟨succeeds, later⟩ := done
    have names := start.shortNames (before ++ [op])
    rw [runOps_snoc] at names
    obtain ⟨present', clean_iff, read⟩ := FileOp.tracked ground low start.ready table succeeds names present on
    have next (on' : Content m (op.run m (runOps m fs before)) i (op.track m (runOps m fs before) i content)) :
        BehavesAs m i ops (op.run m (runOps m fs before)) (op.track m (runOps m fs before) i content) ↔
          AllClean m i ops (op.run m (runOps m fs before)) := by
      rw [← runOps_snoc] at present' on' later ⊢
      exact ih (before ++ [op]) present' on' later
    constructor
    · rintro ⟨-, behaves⟩
      have on' := read behaves.holds
      exact ⟨clean_iff.mp on', (next on').mp behaves⟩
    · rintro ⟨clean, rest⟩
      have on' := clean_iff.mpr clean
      exact ⟨on.holds ground low table (start.shortNames before), (next on').mpr rest⟩

end Runs

/-- The writable files of the test build are byte strings with zero fill, as far as `blockfs_read` tells,
    exactly in those histories in which no call makes the file grow over bytes other than zeros. The file
    is the one that the mount has made, or the first call creates it. -/
theorem files_are_byte_strings_iff {d : Device} {m : Mount} {fs : Fs} (mounted : blockfsMount d = (m, fs))
    (wellFormed : WellFormed m d) (io : IoSucceeds m d)
    (apart : ∀ i j c, rootChain m d i = some c → bitmapChain m d j ≠ some c)
    (fits : 3 * m.clusterSize < 2 ^ 64) (limit : m.exfat.clusterCount ≤ 2 ^ 32 - 11) :
    (∀ i e ops, fs.Live i e → AllSucceed m ops fs → (BehavesAs m i ops fs [] ↔ AllClean m i ops fs)) ∧
    ∀ before op ops i, (runOps m fs before).rootEntries[i]? = none →
      findExfatRootEntry (op.run m (runOps m fs before)).rootEntries op.path = some i →
      AllSucceed m (op :: ops) (runOps m fs before) →
        (BehavesAs m i (op :: ops) (runOps m fs before) [] ↔ AllClean m i (op :: ops) (runOps m fs before)) := by
  have unready (ready : m.exfat.commit.ready = false) :
      (∀ i e, ¬fs.Live i e) ∧ ∀ before (op : FileOp) i, (runOps m fs before).rootEntries[i]? = none →
        findExfatRootEntry (op.run m (runOps m fs before)).rootEntries op.path ≠ some i := by
    constructor
    · intro i e live
      have readOnly := blockfsMount_readOnly mounted ready e (List.mem_of_getElem? live.1)
      rw [live.2] at readOnly
      cases readOnly
    · intro before op i absent leads
      obtain ⟨_, _, _, x, first⟩ := findExfatRootEntry_eq_some.mp leads
      rw [FileOp.run_unready ready] at first
      have here := first.here
      rw [absent] at here
      cases here
  cases ready : m.exfat.commit.ready with
  | false =>
    obtain ⟨none, never⟩ := unready ready
    exact ⟨fun i e ops live => absurd live (none i e),
      fun before op ops i absent leads => absurd leads (never before op i absent)⟩
  | true =>
    have start : Mounted d m fs := ⟨mounted, ready, wellFormed, io, apart, fits⟩
    have ground := start.ground
    have low (c : Nat) (valid : exfatClusterValid m c) : c < 0xfffffff8 := by
      obtain ⟨-, high⟩ := ground.vol.valid_iff.mp valid
      omega
    constructor
    · intro i e ops live done
      have present := Option.isSome_iff_exists.mpr ⟨e, live.1⟩
      have empty : Content m fs i [] := by
        obtain ⟨d', -, isFs⟩ := start.done.start ground ready
        intro x live'
        rw [isFs] at live'
        obtain ⟨-, -, rfl⟩ := start.done.live_eq live'
        exact ⟨rfl, fun pos inside => absurd inside (Nat.not_lt_zero pos)⟩
      exact start.history_iff low ops [] present empty done
    · rintro before op ops i absent leads ⟨succeeds, later⟩
      obtain ⟨cells, table⟩ := start.table before
      obtain ⟨present, on, clean⟩ := FileOp.created ground low ready table succeeds absent leads
      have nothing : Holds m (runOps m fs before) i [] := by
        intro e live
        have atIndex := live.1
        rw [absent] at atIndex
        cases atIndex
      rw [← runOps_snoc] at present on later
      have rest := start.history_iff low ops (before ++ [op]) present on later
      rw [runOps_snoc] at rest
      exact ⟨fun behaves => ⟨clean, rest.mp behaves.2⟩, fun all => ⟨nothing, rest.mpr all.2⟩⟩

/-- A new file of two bytes grows to four, gets a sixth byte, and is emptied. -/
def shortHistory : List FileOp :=
  [.write pathA 0 [1, 2], .truncate pathA 4, .write pathA 5 [3], .truncate pathA 0]

def cleanTest (m : Mount) (i : Nat) : List FileOp → Fs → Bool
  | [], _ => true
  | op :: ops, fs =>
    ((List.range op.reach).all fun pos => fs.rootEntries[i]?.all fun e =>
      decide (pos < e.size) || diskByte m fs.dev e pos == some 0) && cleanTest m i ops (op.run m fs)

theorem AllClean.of_test (tested : cleanTest m i ops fs) : AllClean m i ops fs := by
  induction ops generalizing fs with
  | nil => trivial
  | cons op ops ih =>
    obtain ⟨here, later⟩ := Bool.and_eq_true_iff.mp tested
    refine ⟨fun _ e pos atIndex behind before _ => ?_, ih later⟩
    have byte := List.all_eq_true.mp here pos (List.mem_range.mpr before)
    rw [atIndex, Option.all_some] at byte
    simpa [Nat.not_lt.mpr behind] using byte

/-- A byte is written to `NEW.TXT`, cut off, and covered again. -/
def staleHistory : List FileOp := [.write newTxtPath 0 [1], .truncate newTxtPath 0, .truncate newTxtPath 1]

instance (m : Mount) : (ops : List FileOp) → (fs : Fs) → Decidable (AllSucceed m ops fs)
  | [], _ => inferInstanceAs (Decidable True)
  | op :: ops, fs =>
    have : Decidable (AllSucceed m ops (op.run m fs)) := instDecidableAllSucceed m ops (op.run m fs)
    inferInstanceAs (Decidable (op.succeeds m fs ∧ AllSucceed m ops (op.run m fs)))

set_option maxRecDepth 100000 in
theorem plainFs_histories :
    (blockfsMount plainDevice).1.exfat.clusterCount ≤ 2 ^ 32 - 11 ∧ plainFs.rootEntries[1]? = none ∧
      AllSucceed (blockfsMount plainDevice).1 shortHistory plainFs ∧
      cleanTest (blockfsMount plainDevice).1 1 shortHistory plainFs ∧
      findExfatRootEntry ((FileOp.write pathA 0 [1, 2]).run (blockfsMount plainDevice).1 plainFs).rootEntries
        (FileOp.write pathA 0 [1, 2]).path = some 1 ∧
      plainFs.rootEntries[0]?.map (·.writable) = some true ∧
      AllSucceed (blockfsMount plainDevice).1 staleHistory plainFs ∧
      findExfatRootEntry (runOps (blockfsMount plainDevice).1 plainFs staleHistory).rootEntries newTxtPath = some 0 ∧
      (runOps (blockfsMount plainDevice).1 plainFs staleHistory).rootEntries[0]?.map (·.writable) = some true ∧
      trackAll (blockfsMount plainDevice).1 0 staleHistory plainFs [] = [0] ∧
      blockfsRead [] (blockfsMount plainDevice).1.blockfs newTxtPath 0 1
        (runOps (blockfsMount plainDevice).1 plainFs staleHistory) = some [1] := by
  decide +kernel

theorem files_are_byte_strings_short : BehavesAs (blockfsMount plainDevice).1 1 shortHistory plainFs [] := by
  obtain ⟨limit, absent, done, clean, leads, -⟩ := plainFs_histories
  have start := plainDevice_mounted
  have created := (files_are_byte_strings_iff start.mounted start.wellFormed start.io start.apart start.fits limit).2
    [] (.write pathA 0 [1, 2]) [.truncate pathA 4, .write pathA 5 [3], .truncate pathA 0] 1
  exact (created absent leads done).mpr (.of_test clean)

theorem live_of_map (writable : fs.rootEntries[i]?.map (·.writable) = some true) : ∃ e, fs.Live i e := by
  obtain ⟨e, atIndex, isWritable⟩ := Option.map_eq_some_iff.mp writable
  exact ⟨e, atIndex, isWritable⟩

/-- The byte that was cut off is read again where a zero should be. -/
theorem stale_byte_comes_back :
    Mounted plainDevice (blockfsMount plainDevice).1 plainFs ∧ (∃ e, plainFs.Live 0 e) ∧
      AllSucceed (blockfsMount plainDevice).1 staleHistory plainFs ∧
      ¬BehavesAs (blockfsMount plainDevice).1 0 staleHistory plainFs [] := by
  obtain ⟨-, -, -, -, -, live, done, leads, lives, content, read⟩ := plainFs_histories
  refine ⟨plainDevice_mounted, live_of_map live, done, fun behaves => ?_⟩
  obtain ⟨e, liveNow⟩ := live_of_map lives
  have holds := behaves.final e liveNow newTxtPath leads [] 0 1
  rw [read, content] at holds
  cases holds

end TangPingOS
