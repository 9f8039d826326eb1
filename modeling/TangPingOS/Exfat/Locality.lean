import TangPingOS.Exfat.Cycles
import TangPingOS.Exfat.Frames
import TangPingOS.Vfs.Opening

/-! # Exact and local writes

A write that succeeds puts its bytes where the next read finds them. On its way it may create the
file or lengthen its chain, over clusters that were free, so the clusters of every other file stay
as they are.
-/

namespace TangPingOS

open Lib

variable {path : Bytes} {c : Creation} {d' d₀ : Device} {fs fs' : Fs} {cs new : List Nat}
  {entries : List RootEntry} {m : Mount} {i j last n offset pos requested required stop : Nat}
  {e e' : RootEntry} {w w' : World}

section Bytes

variable {d : Device} (vol : Volume m d)

include vol

theorem fileByte_congr
    (same : ∀ c ∈ cs, ∀ j < m.sectorsPerCluster, d'.data (heapSector m c j) = d.data (heapSector m c j))
    (inside : pos < cs.length * m.clusterSize) : fileByte m cs d' pos = fileByte m cs d pos := by
  obtain ⟨c, member, j, within, isSector⟩ := vol.fileSector_mem (vol.sector_lt inside)
  rw [fileByte, fileByte, isSector, same c member j within]

theorem fileByte_append (more : List Nat)
    (inside : pos < cs.length * m.clusterSize) : fileByte m (cs ++ more) d pos = fileByte m cs d pos := by
  have row := Nat.div_lt_of_lt_mul (Nat.mul_comm _ _ ▸ vol.sector_lt inside)
  rw [fileByte, fileByte, fileSector, fileSector, List.getD_append _ _ _ _ row]

theorem fileByte_append_right (more : List Nat) (beyond : cs.length * m.clusterSize ≤ pos) :
    fileByte m (cs ++ more) d pos = fileByte m more d (pos - cs.length * m.clusterSize) := by
  obtain ⟨r, rfl⟩ := Nat.exists_eq_add_of_le beyond
  have sized : cs.length * m.clusterSize = m.sectorsPerCluster * cs.length * 512 := by
    rw [vol.sized, Nat.mul_comm cs.length, Nat.mul_right_comm]
  have sector : (cs.length * m.clusterSize + r) / 512 = m.sectorsPerCluster * cs.length + r / 512 := by
    rw [sized, Nat.mul_comm _ 512, Nat.mul_add_div (by decide)]
  have offset : (cs.length * m.clusterSize + r) % 512 = r % 512 := by
    rw [sized, Nat.mul_comm _ 512, Nat.mul_add_mod]
  have row : (m.sectorsPerCluster * cs.length + r / 512) / m.sectorsPerCluster =
      cs.length + r / 512 / m.sectorsPerCluster := Nat.mul_add_div vol.sectorsPerCluster_pos _ _
  rw [Nat.add_sub_cancel_left, fileByte, fileByte, fileSector, fileSector, sector, offset, row, Nat.mul_add_mod,
    List.getD_append_right _ _ _ _ (Nat.le_add_right _ _), Nat.add_sub_cancel_left]

theorem fileByte_zero (wiped : ∀ c ∈ cs, ∀ j < m.sectorsPerCluster, d.data (heapSector m c j) = Buf.zero)
    (inside : pos < cs.length * m.clusterSize) : fileByte m cs d pos = 0 := by
  obtain ⟨c, member, j, within, isSector⟩ := vol.fileSector_mem (vol.sector_lt inside)
  rw [fileByte, isSector, wiped c member j within, Buf.get_zero]

variable (ok : EntryOk m d₀ e cs) (linked : Linked (fatWord m d) fatEnd cs) (followable : Followable cs)

include ok linked followable

theorem EntryOk.readable : ExfatReadable m d e where
  geometry := vol.geometry
  sized := Nat.ne_of_gt vol.clusterSize_pos
  file := ok.file
  clusters k filled low := by
    have size := ok.size
    rw [ok.capacity] at size
    have inside : k < cs.length :=
      Nat.lt_of_le_of_lt low (Nat.div_lt_of_lt_mul (by rw [Nat.mul_comm]; omega))
    have valid : exfatClusterValid m (cs.getD k 0) := by
      rw [List.getD_eq_getElem _ _ inside]
      exact ok.valid _ (List.getElem_mem inside)
    refine ⟨_, exfatResolveCluster_getD vol ok linked followable inside, fun j within => ?_⟩
    rw [vol.wrap64_lba valid within]
    exact vol.io.heap _ j valid within

theorem EntryOk.read_eq (filled : 0 < e.size) :
    readExfatRootFile m d e offset bufferLen =
      some (window (fileByte m cs d) offset (min bufferLen (e.size - offset))) := by
  have readable := ok.readable vol linked followable
  have size := ok.size
  rw [ok.capacity] at size
  rw [readable.readExfatRootFile_eq filled]
  refine congrArg some (window_congr fun i inside => ?_)
  have low : offset + i < e.size := by omega
  have sector := (readable.exfatFileSector_eq_some low).1
  rw [exfatFileSector_eq vol ok linked followable (Nat.lt_of_lt_of_le low size), Option.some.injEq] at sector
  rw [byteAt, fileByte, sector]

end Bytes

/-! ## Changes of one file -/

theorem findExfatRootEntry_set
    (atIndex : entries[i]? = some e) (parent : e'.parent = e.parent) (name : e'.name = e.name) :
    findExfatRootEntry (entries.set i e') path = findExfatRootEntry entries path := by
  unfold findExfatRootEntry
  cases splitPath path with
  | none => rfl
  | some parts =>
    apply findIdx?_set_same atIndex
    rw [parent, name]

/-- The file at index `i` may change; everything else stays. -/
structure LocalTo (m : Mount) (i : Nat) (w w' : World) : Prop where
  shape : w.fs.dev.SameShape w'.fs.dev
  entries : ∀ j e, j ≠ i → w.fs.rootEntries[j]? = some e → w'.fs.rootEntries[j]? = some e
  lookups : ∀ path j, findExfatRootEntry w.fs.rootEntries path = some j →
    findExfatRootEntry w'.fs.rootEntries path = some j
  cells : ∀ j, j ≠ i → w'.cells j = w.cells j
  clusters : ∀ j x, j ≠ i → x ∈ w.cells j → SameCluster m w.fs.dev w'.fs.dev x

namespace LocalTo

theorem refl (w : World) : LocalTo m i w w :=
  ⟨.refl _, fun _ _ _ found => found, fun _ _ found => found, fun _ _ => rfl, fun _ _ _ _ => .refl _ _ _⟩

theorem trans {w'' : World} (first : LocalTo m i w w') (second : LocalTo m i w' w'') : LocalTo m i w w'' where
  shape := first.shape.trans second.shape
  entries j e other found := second.entries j e other (first.entries j e other found)
  lookups path j found := second.lookups path j (first.lookups path j found)
  cells j other := (second.cells j other).trans (first.cells j other)
  clusters j x other member :=
    (first.clusters j x other member).trans (second.clusters j x other ((first.cells j other).symm ▸ member))

theorem entries_set (j : Nat) (x : RootEntry) (other : j ≠ i)
    (found : entries[j]? = some x) : (entries.set i e')[j]? = some x :=
  (List.getElem?_set_ne (Ne.symm other)).trans found

theorem lookups_set (atIndex : entries[i]? = some e)
    (parent : e'.parent = e.parent) (name : e'.name = e.name) (path : Bytes) (j : Nat)
    (found : findExfatRootEntry entries path = some j) : findExfatRootEntry (entries.set i e') path = some j :=
  (findExfatRootEntry_set atIndex parent name).trans found

section Stages

variable (ground : Ground m d₀) {cells : Nat → List Nat} (table : Table m d₀ fs cells)

include ground table

theorem create (planned : Planned m d₀ fs c) :
    LocalTo m fs.rootEntries.length ⟨fs, cells⟩
      ⟨⟨fs.rootEntries ++ [c.entry m], c.device m d₀ fs.dev⟩,
        Function.update cells fs.rootEntries.length c.clusters⟩ where
  shape := (sameShape_zeroClusters m c.clusters fs.dev).trans (Device.sameShape_patchAll _ _)
  entries j e other found := by
    have inside := (List.getElem?_eq_some_iff.mp found).1
    exact (List.getElem?_append_left inside).trans found
  lookups path j found := by
    obtain ⟨parent, name, split, e, first⟩ := findExfatRootEntry_eq_some.mp found
    exact findExfatRootEntry_eq_some.mpr ⟨parent, name, split, e, first.append _⟩
  cells j other := Function.update_of_ne other _ _
  clusters _ _ other member := (table.foreign ground other member).created ground table planned

theorem data (only : DataOnly m (cells i) fs.dev d') : LocalTo m i ⟨fs, cells⟩ ⟨⟨fs.rootEntries, d'⟩, cells⟩ where
  shape := only.shape
  entries _ _ _ found := found
  lookups _ _ found := found
  cells _ _ := rfl
  clusters _ _ other member := (table.foreign ground other member).wrote ground table only

variable (atIndex : fs.rootEntries[i]? = some e)

include atIndex

theorem extend {kept : List Nat} (begins : kept <+: cells i) (isLast : kept.getLast? = some last)
    (found : findExfatFreeClusterRun m fs.dev (required - kept.length) = some new) :
    LocalTo m i ⟨fs, cells⟩
      ⟨⟨fs.rootEntries.set i { e with capacity := required * m.clusterSize },
          extendedDevice m d₀ last new fs.dev⟩,
        Function.update cells i (kept ++ new)⟩ where
  shape := (sameShape_zeroClusters m new fs.dev).trans (Device.sameShape_patchAll _ _)
  entries := entries_set
  lookups := lookups_set atIndex rfl rfl
  cells _ other := Function.update_of_ne other _ _
  clusters _ _ other member := (table.foreign ground other member).extended ground table begins isLast found

theorem resize (writable : e.writable) :
    LocalTo m i ⟨fs, cells⟩
      ⟨⟨fs.rootEntries.set i { e with size := size }, fs.dev.put e.directoryLba s⟩, cells⟩ where
  shape := fs.dev.sameShape_put _ _
  entries := entries_set
  lookups := lookups_set atIndex rfl rfl
  cells _ _ := rfl
  clusters _ _ other member := (table.foreign ground other member).entered ground table atIndex writable s

end Stages

theorem sameFile (change : LocalTo m i w w') (ground : Ground m d₀) (table : Table m d₀ w.fs w.cells)
    (other : j ≠ i) (atIndex : w.fs.rootEntries[j]? = some e) (writable : e.writable) :
    SameFile m w.fs.dev w'.fs.dev e := by
  intro k c _ resolved
  have ok := table.entries j e atIndex writable
  exact change.clusters j c other (exfatResolveCluster_mem (table.volume ground) ok (table.owns.linked j) resolved)

end LocalTo

/-! ## The stages of a write -/

/-- The state in which the copy loop of a write begins: the file is there, with room up to `stop`. -/
structure Prepared (m : Mount) (d₀ : Device) (w : World) (path : Bytes) (stop : Nat) (w₁ : World) (i : Nat)
    (e₁ : RootEntry) : Prop where
  table : Table m d₀ w₁.fs w₁.cells
  found : findExfatRootEntry w₁.fs.rootEntries path = some i
  atIndex : w₁.fs.rootEntries[i]? = some e₁
  writable : e₁.writable
  room : stop ≤ e₁.capacity
  change : LocalTo m i w w₁
  before : ∀ e, w.fs.rootEntries[i]? = some e → e.writable ∧ e₁.size = e.size ∧
    ∀ pos < e.size, fileByte m (w₁.cells i) w₁.fs.dev pos = fileByte m (w.cells i) w.fs.dev pos

/-- What the clusters of a file hold at a position. Clusters that it has yet to get hold zeros. -/
def storedByte (m : Mount) (w : World) (i pos : Nat) : UInt8 :=
  match w.fs.rootEntries[i]? with
  | none => 0
  | some e => if pos < e.capacity then fileByte m (w.cells i) w.fs.dev pos else 0

/-- The new room is wiped, and up to it the clusters hold what they held. A file that was not there is
    empty. -/
structure Provided (m : Mount) (d₀ : Device) (w : World) (path : Bytes) (stop : Nat) (w₁ : World) (i : Nat)
    (e₁ : RootEntry) : Prop extends Prepared m d₀ w path stop w₁ i e₁ where
  origin : findExfatRootEntry w.fs.rootEntries path = some i ∨ w.fs.rootEntries[i]? = none ∧ e₁.size = 0
  stored : ∀ pos < e₁.capacity, fileByte m (w₁.cells i) w₁.fs.dev pos = storedByte m w i pos

section Stages

variable (ground : Ground m d₀) (low : ∀ c, exfatClusterValid m c → c < 0xfffffff8)
  {cells : Nat → List Nat} (table : Table m d₀ fs cells)

include low table

theorem Table.followable : Followable (cells i) := fun c member =>
  low c (table.cell_valid (List.mem_of_mem_tail member))

include ground

omit low in
/-- The bytes of a file do not notice that its chain gets longer. -/
theorem fileByte_extended (isLast : (cells i).getLast? = some last)
    (found : findExfatFreeClusterRun m fs.dev (required - (cells i).length) = some new)
    (inside : pos < (cells i).length * m.clusterSize) :
    fileByte m (cells i ++ new) (extendedDevice m d₀ last new fs.dev) pos = fileByte m (cells i) fs.dev pos := by
  have vol := table.volume ground
  obtain ⟨len, some_, -, -, free⟩ := findExfatFreeClusterRun_spec ground table.agree found
  have lastMember : last ∈ cells i := List.mem_of_getLast? isLast
  have shape : fs.dev.SameShape (extendedDevice m d₀ last new fs.dev) :=
    (sameShape_zeroClusters m new fs.dev).trans (Device.sameShape_patchAll _ _)
  rw [fileByte_append (vol.ofShape shape) new inside]
  refine fileByte_congr vol (fun c member => ?_) inside
  exact (SameCluster.extend ground table.agree (table.cell_valid member) (table.cell_not_reserved ground member)
    (table.cell_valid lastMember) (fun b fresh => (free b fresh).valid)
    (table.cell_not_reserved ground lastMember) (fun b fresh => table.free_not_reserved ground (free b fresh))
    (List.ne_nil_of_length_pos (by omega)) fun fresh => table.free_not_cell (free c fresh) i member).2

omit low in
/-- Up to the old end the clusters hold what they held, behind it zeros. -/
theorem Provided.extend
    (found : findExfatRootEntry fs.rootEntries path = some i) (atIndex : fs.rootEntries[i]? = some e)
    (writable : e.writable) (isLast : (cells i).getLast? = some last)
    (run : findExfatFreeClusterRun m fs.dev (required - (cells i).length) = some new) (few : required ≤ 3)
    (grows : e.capacity ≤ required * m.clusterSize) (room : stop ≤ required * m.clusterSize) :
    Provided m d₀ ⟨fs, cells⟩ path stop
      ⟨⟨fs.rootEntries.set i { e with capacity := required * m.clusterSize },
          extendedDevice m d₀ last new fs.dev⟩,
        Function.update cells i (cells i ++ new)⟩ i { e with capacity := required * m.clusterSize } := by
  have whole : cells i <+: cells i := List.prefix_refl _
  have change := LocalTo.extend ground table atIndex whole isLast run
  have ok := table.entries i e atIndex writable
  have vol := table.volume ground
  refine ⟨⟨table.extend ground atIndex writable whole isLast run few grows, change.lookups path i found,
    List.getElem?_set_self (List.getElem?_eq_some_iff.mp atIndex).1, writable, room, change, ?_⟩, .inl found, ?_⟩
  · intro e' atIndex'
    obtain rfl := Option.some.inj (atIndex.symm.trans atIndex')
    have size := ok.size
    rw [ok.capacity] at size
    refine ⟨writable, rfl, fun pos below => ?_⟩
    simp only [Function.update_self]
    exact fileByte_extended ground table isLast run (Nat.lt_of_lt_of_le below size)
  · intro pos below
    obtain ⟨len, some_, -, -, free⟩ := findExfatFreeClusterRun_spec ground table.agree run
    simp only [storedByte, atIndex, Function.update_self]
    split
    · rename_i inside
      rw [ok.capacity] at inside
      exact fileByte_extended ground table isLast run inside
    · rename_i beyond
      rw [ok.capacity] at beyond
      have validLast := table.cell_valid (List.mem_of_getLast? isLast)
      rw [fileByte_append_right (vol.ofShape change.shape) new (Nat.not_lt.mp beyond)]
      refine fileByte_zero (vol.ofShape change.shape) (fun c member j inside => ?_) ?_
      · rw [SameCluster.extend_data ground table.agree (free c member).valid
          (table.free_not_reserved ground (free c member)) validLast (fun b fresh => (free b fresh).valid) inside]
        exact zeroClusters_data_self member inside
      · have below : pos < required * m.clusterSize := below
        have split : required * m.clusterSize = (cells i).length * m.clusterSize + new.length * m.clusterSize := by
          rw [← Nat.add_mul]
          congr 1
          omega
        omega

omit low in
theorem Provided.create (plan : planCreation m fs path requested = some c)
    (room : stop ≤ c.clusters.length * m.clusterSize) :
    Provided m d₀ ⟨fs, cells⟩ path stop
      ⟨⟨fs.rootEntries ++ [c.entry m], c.device m d₀ fs.dev⟩,
        Function.update cells fs.rootEntries.length c.clusters⟩ fs.rootEntries.length (c.entry m) := by
  obtain ⟨planned, -⟩ := planCreation_spec ground table.agree plan
  have change := LocalTo.create ground table planned
  have beyond : fs.rootEntries[fs.rootEntries.length]? = none := List.getElem?_eq_none (Nat.le_refl _)
  refine ⟨⟨table.create ground planned, ?_, by simp, rfl, ?_, change, fun e atEnd => ?_⟩, .inr ⟨beyond, rfl⟩,
    fun pos below => ?_⟩
  · exact planCreation_found ground table.agree plan rfl rfl
  · exact room
  · rw [beyond] at atEnd
    cases atEnd
  · simp only [storedByte, beyond, Function.update_self]
    refine fileByte_zero ((table.volume ground).ofShape change.shape) (fun b member j inside => ?_) below
    have free := planned.free b member
    rw [SameCluster.create_data ground table.agree free.valid (table.free_not_reserved ground free)
      planned.valid (planned.lba ground table.agree) inside]
    exact zeroClusters_data_self member inside

theorem blockfsWriteNewFile_provided
    (found : findExfatRootEntry fs.rootEntries path = some i) (atIndex : fs.rootEntries[i]? = some e)
    (done : blockfsWriteNewFile m fs i e offset data = (fs', some n)) :
    ∃ w₁ e₁, Provided m d₀ ⟨fs, cells⟩ path (offset + data.length) w₁ i e₁ ∧
      writeFileData m w₁.fs i e₁ offset data = (fs', some n) := by
  simp only [blockfsWriteNewFile] at done
  split at done
  · cases done
  rename_i checks
  have writable : e.writable := by
    simp only [Bool.or_eq_true, not_or, Bool.not_eq_true, Bool.not_eq_false'] at checks
    exact checks.1.1.1.2
  have asBefore (room : offset + data.length ≤ e.capacity) :
      Provided m d₀ ⟨fs, cells⟩ path (offset + data.length) ⟨fs, cells⟩ i e := by
    refine ⟨⟨table, found, atIndex, writable, room, .refl _, fun e' atIndex' => ?_⟩, .inl found,
      fun pos inside => ?_⟩
    · obtain rfl := Option.some.inj (atIndex.symm.trans atIndex')
      exact ⟨writable, rfl, fun _ _ => rfl⟩
    · simp only [storedByte, atIndex, if_pos inside]
  split at done
  · rename_i beyond
    split at done
    · cases done
    rename_i accepted
    have fits := exfatTestClusterCountForSize_spec accepted
    have ok := table.entries i e atIndex writable
    obtain ⟨kept, -, present, collected, whole⟩ := collect_kept ground table atIndex writable
    obtain rfl := whole (table.followable low)
    rw [extendExfatTestFile_eq ground table.agree writable present collected ok.valid] at done
    generalize exfatTestClusterCountForSize m (offset + data.length) = required at done fits
    by_cases bounds : required = 0 ∨ 3 < required ∨ required < (cells i).length
    · rw [if_pos bounds] at done
      cases done
    rw [if_neg bounds] at done
    by_cases enough : (cells i).length = required
    · rw [if_pos enough] at done
      simp only [atIndex, if_pos beyond] at done
      cases done
    rw [if_neg enough] at done
    cases run : findExfatFreeClusterRun m fs.dev (required - (cells i).length) with
    | none =>
      rw [run] at done
      cases done
    | some new =>
      rw [run] at done
      have inside := (List.getElem?_eq_some_iff.mp atIndex).1
      have grows : e.capacity ≤ required * m.clusterSize := by omega
      have isLast : (cells i).getLast? = some ((cells i).getLastD 0) := by
        rw [List.getLastD_eq_getLast?, List.getLast?_eq_some_getLast present, Option.getD_some]
      simp only [List.getElem?_set_self inside, if_neg (Nat.not_lt.mpr fits)] at done
      exact ⟨_, _, .extend ground table found atIndex writable isLast run (by omega) grows fits, done⟩
  · rename_i room
    exact ⟨⟨fs, cells⟩, e, asBefore (Nat.not_lt.mp room), done⟩

variable (ready : m.exfat.commit.ready)

include ready

/-- A write that succeeds has found the file or has created it. -/
theorem blockfsWrite_provided (done : blockfsWrite m fs path offset data = (fs', some n)) :
    ∃ w₁ i e₁, Provided m d₀ ⟨fs, cells⟩ path (offset + data.length) w₁ i e₁ ∧
      writeFileData m w₁.fs i e₁ offset data = (fs', some n) := by
  cases found : findExfatRootEntry fs.rootEntries path with
  | some i =>
    cases atIndex : fs.rootEntries[i]? with
    | none =>
      simp only [blockfsWrite, found, atIndex] at done
      cases done
    | some e =>
      simp only [blockfsWrite, found, atIndex] at done
      obtain ⟨w₁, e₁, provided, wrote⟩ := blockfsWriteNewFile_provided ground low table found atIndex done
      exact ⟨w₁, i, e₁, provided, wrote⟩
  | none =>
    by_cases start : offset = 0
    · subst start
      rw [blockfsWrite_absent ground ready table found] at done
      cases plan : planCreation m fs path (exfatTestClusterCountForSize m data.length) with
      | none =>
        rw [plan] at done
        cases done
      | some c =>
        simp only [plan] at done
        split at done
        · cases done
        have fits := planCreation_fits ground table.agree plan
        exact ⟨_, _, _, .create ground table plan (by omega), done⟩
    · simp only [blockfsWrite, found, if_pos start] at done
      cases done

end Stages

/-- What the copy loop and the new size leave. -/
structure Wrote (m : Mount) (d₀ : Device) (w : World) (i : Nat) (e : RootEntry) (offset : Nat) (data : Bytes)
    (fs' : Fs) : Prop where
  table : Table m d₀ fs' w.cells
  atIndex : fs'.rootEntries[i]? = some { e with size := max e.size (offset + data.length) }
  change : LocalTo m i w ⟨fs', w.cells⟩
  bytes : ∀ pos < (w.cells i).length * m.clusterSize, fileByte m (w.cells i) fs'.dev pos =
    if offset ≤ pos ∧ pos < offset + data.length then data.getD (pos - offset) 0
    else fileByte m (w.cells i) w.fs.dev pos

theorem writeFileData_wrote (ground : Ground m d₀)
    (low : ∀ c, exfatClusterValid m c → c < 0xfffffff8) (ready : m.exfat.commit.ready)
    (table : Table m d₀ fs cells)
    (atIndex : fs.rootEntries[i]? = some e) (writable : e.writable)
    (room : offset + data.length ≤ e.capacity) (done : writeFileData m fs i e offset data = (fs', some n)) :
    Wrote m d₀ ⟨fs, cells⟩ i e offset data fs' := by
  have ok := table.entries i e atIndex writable
  rw [ok.capacity] at room
  obtain ⟨d', ran, only, bytes⟩ := writeFrom_ok ok (table.owns.nodup i) (table.followable low) room
    (table.volume ground) (table.owns.linked i) (Nat.le_of_eq (Nat.zero_add data.length).symm)
  have table' := table.data ground only
  have change : LocalTo m i ⟨fs, cells⟩ ⟨⟨fs.rootEntries, d'⟩, cells⟩ := .data ground table only
  simp only [writeFileData, ran] at done
  by_cases grows : e.size < offset + data.length
  · have size := Nat.max_eq_right (Nat.le_of_lt grows)
    rw [if_pos grows, refreshExfatTestFileSize_eq ground table'.agree ok ready writable] at done
    by_cases refused : e.capacity < offset + data.length ∨
        (d'.data e.directoryLba).get e.directoryByteOffset ≠ 0x85 ∨
        (d'.data e.directoryLba).get (e.directoryByteOffset + 32) ≠ 0xc0
    · simp only [refused] at done
      cases done
    · simp only [refused] at done
      cases done
      have fits := Nat.not_lt.mp (not_or.mp refused).1
      refine ⟨table'.putEntry ground atIndex writable _ writable { ok with size := fits }, ?_,
        change.trans (.resize ground table' atIndex writable), fun pos inside => ?_⟩
      · rw [size]
        exact List.getElem?_set_self (List.getElem?_eq_some_iff.mp atIndex).1
      · refine Eq.trans ?_ (bytes pos inside)
        obtain ⟨k, b, j, chain, within, isLba⟩ := ok.directory
        simp only [isLba]
        refine fileByte_congr (table'.volume ground) (fun c member => ?_) inside
        exact (SameCluster.put_root ground table'.agree (table'.cell_valid member)
          (table'.cell_not_reserved ground member) chain within).data
  · have size := Nat.max_eq_left (Nat.not_lt.mp grows)
    rw [if_neg grows] at done
    cases done
    exact ⟨table', by rw [size]; exact atIndex, change, bytes⟩

/-! ## Exact writes -/

/-- The mount as `blockfs_read` sees it. -/
def Mount.blockfs (m : Mount) : BlockfsMount := { blockSize := m.blockSize, exfat := m.exfat }

/-- A volume within the limits of the format, whose files lie in allocated clusters outside the
    directory and the bitmap. -/
structure WellFormedVolume (m : Mount) (d : Device) : Prop where
  wellFormed : WellFormed m d
  clusterCount : m.exfat.clusterCount ≤ 2 ^ 32 - 11
  clusterSize : m.clusterSize ≤ 2 ^ 25
  apart : ∀ i j c, rootChain m d i = some c → bitmapChain m d j ≠ some c
  files : ∀ e ∈ parsedEntries d, e.isDir = false → ∀ k c, k * m.clusterSize < e.size →
    exfatResolveCluster m d e.firstCluster e.streamFlags k = some c →
    readExfatBitmapBit m d c = some true ∧ ¬Reserved m d c

/-- What a write of `data` at `offset` of a path owes its caller, `fs` being the state before. The two
    paths that `blockfs_read` answers without looking a file up name no file. -/
structure ExactWrite (m : Mount) (fs fs' : Fs) (path : Bytes) (offset : Nat) (data : Bytes) : Prop where
  /-- The data is read back. -/
  back : ∀ pieces, blockfsRead pieces m.blockfs path offset data.length fs' = some data
  /-- What the file had elsewhere stays. -/
  elsewhere : ∀ pieces pieces' pos, (findExfatRootEntry fs.rootEntries path).isSome →
    pos < blockfsSize pieces path fs → pos < offset ∨ offset + data.length ≤ pos →
    ∃ b, blockfsRead pieces m.blockfs path pos 1 fs = some [b] ∧
      blockfsRead pieces' m.blockfs path pos 1 fs' = some [b]
  /-- Every other entry keeps its size and all that can be read of it. -/
  others : ∀ j e, fs.rootEntries[j]? = some e → findExfatRootEntry fs'.rootEntries path ≠ some j →
    fs'.rootEntries[j]? = some e ∧
      ∀ o n, readExfatRootFile m fs'.dev e o n = readExfatRootFile m fs.dev e o n
  /-- And so does the file that another path leads to. -/
  paths : ∀ pieces pieces' other j, other ≠ slash :: infoName → other ≠ slash :: sectorZeroName →
    findExfatRootEntry fs.rootEntries other = some j → findExfatRootEntry fs'.rootEntries path ≠ some j →
    blockfsSize pieces' other fs' = blockfsSize pieces other fs ∧
      ∀ o n, blockfsRead pieces' m.blockfs other o n fs' = blockfsRead pieces m.blockfs other o n fs

/-- `blockfs_read` and `blockfs_size` on a path that leads to an entry. -/
theorem blockfsRead_found (notInfo : path ≠ slash :: infoName) (notSector : path ≠ slash :: sectorZeroName)
    (found : findExfatRootEntry fs.rootEntries path = some j) (atIndex : fs.rootEntries[j]? = some e)
    (pieces : List Bytes) :
    (∀ o n, blockfsRead pieces m.blockfs path o n fs = readExfatRootFile m fs.dev e o n) ∧
      blockfsSize pieces path fs = e.size := by
  refine ⟨fun o n => ?_, ?_⟩
  · simp only [blockfsRead, if_neg notInfo, if_neg notSector, found, Option.bind_some, atIndex]
    rfl
  · simp [blockfsSize, if_neg notInfo, if_neg notSector, found, atIndex]

/-- No file operation makes a file that one of the two paths would hide. -/
theorem ShortName.ne_fixed {fixed : Bytes}
    (short : ShortName e.name) (found : findExfatRootEntry entries path = some i)
    (atIndex : entries[i]? = some e) (split : splitPath (slash :: fixed) = some (rootPath, fixed))
    (long : parseExfatTestShortName (slash :: fixed) = none) : path ≠ slash :: fixed := by
  rintro rfl
  obtain ⟨parent, name, isSplit, e', first⟩ := findExfatRootEntry_eq_some.mp found
  obtain rfl := Option.some.inj (first.here.symm.trans atIndex)
  rw [split, Option.some.injEq, Prod.mk.injEq] at isSplit
  have passes := first.passes
  simp only [Bool.and_eq_true, beq_iff_eq] at passes
  obtain ⟨full, parsed⟩ := short
  obtain ⟨isFull, -⟩ := parseExfatTestShortName_spec parsed
  rw [isFull, passes.2, ← isSplit.2] at parsed
  rw [show (0x2f : UInt8) = slash from rfl, long] at parsed
  cases parsed

section

variable (short : ShortName e.name) (found : findExfatRootEntry entries path = some i)
  (atIndex : entries[i]? = some e)

include short found atIndex

theorem ShortName.ne_info : path ≠ slash :: infoName :=
  short.ne_fixed found atIndex (by decide) (by decide)

theorem ShortName.ne_sectorZero : path ≠ slash :: sectorZeroName :=
  short.ne_fixed found atIndex (by decide) (by decide)

end

/-- A write only succeeds where the mount has got its commit through. -/
theorem blockfsWrite_ready (done : blockfsWrite m fs path offset data = (fs', some n)) : m.exfat.commit.ready := by
  cases ready : m.exfat.commit.ready with
  | true => rfl
  | false =>
    have refused (fs : Fs) (i : Nat) (e : RootEntry) : blockfsWriteNewFile m fs i e offset data = (fs, none) := by
      simp [blockfsWriteNewFile, ready]
    simp only [blockfsWrite, refused] at done
    repeat' split at done
    all_goals cases done

theorem WellFormedVolume.low (volume : WellFormedVolume m d) (ground : Ground m d) {c}
    (valid : exfatClusterValid m c) : c < 0xfffffff8 := by
  obtain ⟨-, high⟩ := ground.vol.valid_iff.mp valid
  have limit := volume.clusterCount
  omega

section Exact

variable {d : Device} (volume : WellFormedVolume m d) (ground : Ground m d) {cells : Nat → List Nat}
  (table : Table m d fs cells)

include volume ground table

theorem EntryFrom.read_eq (inherits : Inherits m d (parsedEntries d) fs)
    (origin : EntryFrom (parsedEntries d) e) (readOnly : e.writable = false) (offset bufferLen : Nat) :
    readExfatRootFile m fs.dev e offset bufferLen = readExfatRootFile m d e offset bufferLen := by
  cases origin with
  | made writable _ =>
    rw [writable] at readOnly
    cases readOnly
  | unlinked empty =>
    have invalid : exfatClusterValid m e.firstCluster = false := by simp [empty, exfatClusterValid]
    simp [readExfatRootFile, invalid]
  | found _ member =>
    cases directory : e.isDir with
    | true => simp [readExfatRootFile, directory]
    | false =>
      refine SameFile.readExfatRootFile_eq ground.vol table.agree.shape (fun k c below resolved => ?_)
      have valid := exfatResolveCluster_inside resolved
      obtain ⟨allocated, apart⟩ := volume.files e member directory k c below resolved
      rw [ground.readBit ⟨.refl d, fun _ _ => rfl⟩ valid, Option.some.injEq] at allocated
      exact inherits.used c ⟨valid, allocated, apart⟩

end Exact

section Outcome

variable {d : Device} (ground : Ground m d) (low : ∀ c, exfatClusterValid m c → c < 0xfffffff8)
  {cells : Nat → List Nat} {data : Bytes}
  (prepared : Prepared m d ⟨fs, cells⟩ path (offset + data.length) w i e)
  (wrote : Wrote m d w i e offset data fs') (some_ : 0 < data.length) (notInfo : path ≠ slash :: infoName)
  (notSector : path ≠ slash :: sectorZeroName)

include prepared wrote

theorem Wrote.found : findExfatRootEntry fs'.rootEntries path = some i :=
  wrote.change.lookups path i prepared.found

include ground low some_ notInfo notSector

theorem Wrote.read_eq :
    blockfsRead pieces m.blockfs path o n fs' =
      some (window (fileByte m (w.cells i) fs'.dev) o (min n (max e.size (offset + data.length) - o))) := by
  have ok := wrote.table.entries i _ wrote.atIndex prepared.writable
  rw [(blockfsRead_found notInfo notSector (wrote.found prepared) wrote.atIndex pieces).1]
  refine ok.read_eq (wrote.table.volume ground) (wrote.table.owns.linked i) (wrote.table.followable low) ?_
  exact Nat.lt_of_lt_of_le (by omega) (Nat.le_max_right e.size (offset + data.length))

theorem Wrote.back (pieces : List Bytes) :
    blockfsRead pieces m.blockfs path offset data.length fs' = some data := by
  have ok := prepared.table.entries i e prepared.atIndex prepared.writable
  have room := prepared.room
  rw [ok.capacity] at room
  have all : min data.length (max e.size (offset + data.length) - offset) = data.length := by omega
  rw [wrote.read_eq ground low prepared some_ notInfo notSector, all, Option.some.injEq]
  refine Eq.trans ?_ (window_getD 0)
  refine window_congr fun k inside => ?_
  rw [wrote.bytes _ (by omega), if_pos (by omega), Nat.zero_add, Nat.add_sub_cancel_left]

theorem Wrote.elsewhere (table : Table m d fs cells)
    (present : (findExfatRootEntry fs.rootEntries path).isSome) (below : pos < blockfsSize pieces path fs)
    (outside : pos < offset ∨ offset + data.length ≤ pos) :
    ∃ b, blockfsRead pieces m.blockfs path pos 1 fs = some [b] ∧
      blockfsRead pieces' m.blockfs path pos 1 fs' = some [b] := by
  obtain ⟨j, foundOld⟩ := Option.isSome_iff_exists.mp present
  -- the path led to the same index before
  obtain rfl : i = j := Option.some.inj (prepared.found.symm.trans (prepared.change.lookups path j foundOld))
  obtain ⟨_, _, _, old, first⟩ := findExfatRootEntry_eq_some.mp foundOld
  obtain ⟨writable, size, bytes⟩ := prepared.before old first.here
  obtain ⟨reads, sizes⟩ := blockfsRead_found (m := m) notInfo notSector foundOld first.here pieces
  rw [sizes] at below
  have ok := table.entries i old first.here writable
  have okNow := prepared.table.entries i e prepared.atIndex prepared.writable
  have inside := okNow.size
  rw [okNow.capacity] at inside
  refine ⟨fileByte m (cells i) fs.dev pos, ?_, ?_⟩
  · have one : min 1 (old.size - pos) = 1 := by omega
    rw [reads, ok.read_eq (table.volume ground) (table.owns.linked i) (table.followable low) (by omega), one]
    rfl
  · have one : min 1 (max e.size (offset + data.length) - pos) = 1 := by omega
    rw [wrote.read_eq ground low prepared some_ notInfo notSector, one]
    show some [fileByte m (w.cells i) fs'.dev pos] = _
    rw [wrote.bytes pos (by omega), if_neg (by omega), bytes pos below]

end Outcome

/-- Successful writes are exact and local, in every state that a run of file operations reaches. -/
theorem writes_exact_and_local {d : Device} {m : Mount} {fs fs' : Fs} (mounted : blockfsMount d = (m, fs))
    (volume : WellFormedVolume m d) (io : IoSucceeds m d) (ops : List FileOp) {path data : Bytes}
    {offset n : Nat} (some_ : 0 < data.length)
    (done : blockfsWrite m (runOps m fs ops) path offset data = (fs', some n)) :
    ExactWrite m (runOps m fs ops) fs' path offset data := by
  have ready := blockfsWrite_ready done
  have small := volume.clusterSize
  have start : Mounted d m fs := ⟨mounted, ready, volume.wellFormed, io, volume.apart, by omega⟩
  have ground := start.ground
  have low (c : Nat) (valid : exfatClusterValid m c) : c < 0xfffffff8 := volume.low ground valid
  obtain ⟨cells, table⟩ := start.table ops
  obtain ⟨w, i, e, ⟨prepared, -⟩, loop⟩ := blockfsWrite_provided ground low table ready done
  have wrote := writeFileData_wrote ground low ready prepared.table prepared.atIndex prepared.writable
    prepared.room loop
  have change := prepared.change.trans wrote.change
  have inherits := start.inherits ops
  have inherits' : Inherits m d (parsedEntries d) fs' := by
    have later := start.inherits (ops ++ [.write path offset data])
    rw [runOps, List.foldl_append] at later
    change Inherits m d (parsedEntries d) (blockfsWrite m (runOps m fs ops) path offset data).1 at later
    rwa [done] at later
  have short := (inherits'.entries _ (List.mem_of_getElem? wrote.atIndex)).shortName prepared.writable
  have found := wrote.found prepared
  have notInfo := short.ne_info found wrote.atIndex
  have notSector := short.ne_sectorZero found wrote.atIndex
  have others (j : Nat) (x : RootEntry) (atIndex : (runOps m fs ops).rootEntries[j]? = some x)
      (other : findExfatRootEntry fs'.rootEntries path ≠ some j) : fs'.rootEntries[j]? = some x ∧
        ∀ o n, readExfatRootFile m fs'.dev x o n = readExfatRootFile m (runOps m fs ops).dev x o n := by
    have apart : j ≠ i := by
      rintro rfl
      exact other found
    refine ⟨change.entries j x apart atIndex, fun o n => ?_⟩
    cases writable : x.writable with
    | true =>
      have same := change.sameFile ground table apart atIndex writable
      exact same.readExfatRootFile_eq (table.volume ground) change.shape
    | false =>
      have origin := inherits.entries x (List.mem_of_getElem? atIndex)
      rw [origin.read_eq volume ground table inherits writable,
        origin.read_eq volume ground wrote.table inherits' writable]
  refine ⟨wrote.back ground low prepared some_ notInfo notSector, ?_, others, ?_⟩
  · intro pieces pieces' pos present below outside
    exact wrote.elsewhere ground low prepared some_ notInfo notSector table present below outside
  · intro pieces pieces' q j hidden hidden' leads other
    obtain ⟨_, _, _, x, first⟩ := findExfatRootEntry_eq_some.mp leads
    obtain ⟨kept, same⟩ := others j x first.here other
    obtain ⟨reads, size⟩ := blockfsRead_found (m := m) hidden hidden' leads first.here pieces
    obtain ⟨reads', size'⟩ := blockfsRead_found (m := m) hidden hidden' (change.lookups q j leads) kept pieces'
    refine ⟨size'.trans size.symm, fun o n => ?_⟩
    rw [reads, reads', same]

/-- A volume of sixteen clusters with one file `A` of five bytes, in cluster 4, and a byte of its bitmap. -/
def fileDevice (bits : UInt8) : Device :=
  smallDevice 1 2 16 2 0 sixteenClusters_fit
    [(1, sectorOf [(8, le32 fatEnd), (12, le32 fatEnd), (16, le32 fatEnd)]),
      (2, sectorOf [(0, bitmapEntryOf 3 2), (32, (encodeExfatFileEntries [0x41] 4 5).slice 0 96)]),
      (3, sectorOf [(0, [bits])]), (4, sectorOf [(0, [10, 11, 12, 13, 14])])]

def oneFileDevice : Device := fileDevice 0x07

/-- The state after a first write to `/B`. -/
def besideFs : Fs :=
  runOps (blockfsMount oneFileDevice).1 (blockfsMount oneFileDevice).2 [.write [0x2f, 0x42] 0 [7]]

set_option maxRecDepth 100000 in
theorem oneFileDevice_facts :
    mountTest oneFileDevice ∧ (blockfsMount oneFileDevice).1.exfat.clusterCount ≤ 2 ^ 32 - 11 ∧
      (blockfsMount oneFileDevice).1.clusterSize ≤ 2 ^ 25 ∧
      (parsedEntries oneFileDevice).map (fun e => (e.firstCluster, e.streamFlags)) = [(4, 0)] ∧
      exfatReadFatEntry (blockfsMount oneFileDevice).1 oneFileDevice 4 = some fatEnd ∧
      readExfatBitmapBit (blockfsMount oneFileDevice).1 oneFileDevice 4 = some true ∧
      (blockfsMount oneFileDevice).1.exfat.rootDirCluster = 2 ∧
      (blockfsMount oneFileDevice).1.exfat.allocationBitmap.cluster = 3 ∧
      (blockfsWrite (blockfsMount oneFileDevice).1 besideFs [0x2f, 0x42] 511 [1, 2]).2 = some 2 := by
  decide +kernel

theorem oneFileDevice_mounted :
    Mounted oneFileDevice (blockfsMount oneFileDevice).1 (blockfsMount oneFileDevice).2 :=
  .of_test oneFileDevice_facts.1 rfl

theorem oneFileDevice_wellFormed : WellFormedVolume (blockfsMount oneFileDevice).1 oneFileDevice := by
  obtain ⟨tested, clusterCount, clusterSize, entries, ends, allocated, root, bitmap, -⟩ := oneFileDevice_facts
  have single : SingleClusters (blockfsMount oneFileDevice).1 oneFileDevice := by
    simp only [mountTest, Bool.and_eq_true] at tested
    exact .of_test tested.1.1.2 rfl
  refine ⟨oneFileDevice_mounted.wellFormed, clusterCount, clusterSize, oneFileDevice_mounted.apart, ?_⟩
  intro e member _ k c _ resolved
  have shown := List.mem_map_of_mem (f := fun e : RootEntry => (e.firstCluster, e.streamFlags)) member
  rw [entries, List.mem_singleton, Prod.mk.injEq] at shown
  rw [shown.1, shown.2] at resolved
  obtain ⟨-, rfl⟩ := SingleClusters.resolve_single ends resolved
  refine ⟨allocated, fun reserved => ?_⟩
  obtain ⟨i, chain⟩ | ⟨i, chain⟩ := reserved
  · have isRoot := (SingleClusters.resolve_single single.rootEnd chain).2
    omega
  · have isBitmap := (SingleClusters.resolve_single single.bitmapEnd chain).2
    omega

/-- The conditions can be met: a file is created beside the one that is there, and then lengthened. -/
theorem writes_exact_and_local_beside :
    (blockfsWrite (blockfsMount oneFileDevice).1 besideFs [0x2f, 0x42] 511 [1, 2]).2 = some 2 ∧
      ExactWrite (blockfsMount oneFileDevice).1 besideFs
        (blockfsWrite (blockfsMount oneFileDevice).1 besideFs [0x2f, 0x42] 511 [1, 2]).1
        [0x2f, 0x42] 511 [1, 2] := by
  obtain ⟨-, -, -, -, -, -, -, -, done⟩ := oneFileDevice_facts
  have whole {p : Fs × Option Nat} (written : p.2 = some 2) : p = (p.1, some 2) := by rw [← written]
  exact ⟨done, writes_exact_and_local oneFileDevice_mounted.mounted oneFileDevice_wellFormed
    oneFileDevice_mounted.io [.write [0x2f, 0x42] 0 [7]] (by decide) (whole done)⟩

/-- The bitmap has the cluster of `A` as free. -/
def looseFileDevice : Device := fileDevice 0x03

set_option maxRecDepth 100000 in
/-- The mount gives the cluster of `A` to `NEW.TXT`, and the first write there changes `A`. -/
theorem write_changes_loose_file :
    Mounted looseFileDevice (blockfsMount looseFileDevice).1 (blockfsMount looseFileDevice).2 ∧
      (blockfsMount looseFileDevice).2.rootEntries.map (fun e => (e.name, e.writable)) =
        [([0x41], false), (newTxt, true)] ∧
      blockfsRead [] (blockfsMount looseFileDevice).1.blockfs [0x2f, 0x41] 0 5 (blockfsMount looseFileDevice).2 =
        some [10, 11, 12, 13, 14] ∧
      (blockfsWrite (blockfsMount looseFileDevice).1 (blockfsMount looseFileDevice).2 (0x2f :: newTxt) 0 [7]).2 =
        some 1 ∧
      blockfsRead [] (blockfsMount looseFileDevice).1.blockfs [0x2f, 0x41] 0 5
        (blockfsWrite (blockfsMount looseFileDevice).1 (blockfsMount looseFileDevice).2 (0x2f :: newTxt) 0 [7]).1 =
        some [7, 11, 12, 13, 14] :=
  ⟨.of_test (by decide +kernel) rfl, by decide +kernel⟩

/-- A file that the mount found keeps its entry, and reads as it did on the disk before the mount. -/
theorem found_files_survive {d : Device} {m : Mount} {fs : Fs} (start : Mounted d m fs)
    (volume : WellFormedVolume m d) (ops : List FileOp) {i : Nat} {e : RootEntry}
    (listed : (parsedEntries d)[i]? = some e) :
    (runOps m fs ops).rootEntries[i]? = some e ∧
      ∀ o n, readExfatRootFile m (runOps m fs ops).dev e o n = readExfatRootFile m d e o n := by
  have readOnly := start.done.readOnly e (List.mem_of_getElem? listed)
  have kept : (runOps m fs ops).rootEntries[i]? = some e := by
    refine start.keeps (P := fun fs => fs.rootEntries[i]? = some e) (fun d' _ => ?_)
      (fun step _ here => step.keeps_readOnly here readOnly)
    unfold mountedFs
    split
    · exact listed
    · exact (List.getElem?_append_left (List.getElem?_eq_some_iff.mp listed).1).trans listed
  obtain ⟨cells, table⟩ := start.table ops
  have inherits := start.inherits ops
  exact ⟨kept, EntryFrom.read_eq volume start.ground table inherits
    (inherits.entries e (List.mem_of_getElem? kept)) readOnly⟩

/-- `A` stays while `B` comes and goes. -/
theorem found_files_survive_one : ∃ e, (parsedEntries oneFileDevice)[0]? = some e ∧
    (runOps (blockfsMount oneFileDevice).1 (blockfsMount oneFileDevice).2
      [.write [0x2f, 0x42] 0 [7], .unlink [0x2f, 0x42]]).rootEntries[0]? = some e := by
  obtain ⟨e, rest, listed, -⟩ := List.map_eq_cons_iff.mp oneFileDevice_facts.2.2.2.1
  have first : (parsedEntries oneFileDevice)[0]? = some e := by simp [listed]
  exact ⟨e, first, (found_files_survive oneFileDevice_mounted oneFileDevice_wellFormed _ first).1⟩

/-- A cluster that was allocated before the mount stays so, with its FAT entry and data if not reserved. -/
theorem allocated_clusters_kept {d : Device} {m : Mount} {fs : Fs} (start : Mounted d m fs)
    (ops : List FileOp) {c : Nat} (used : readExfatBitmapBit m d c = some true) :
    readExfatBitmapBit m (runOps m fs ops).dev c = some true ∧
      (¬Reserved m d c → SameCluster m d (runOps m fs ops).dev c) := by
  have valid : exfatClusterValid m c := by
    cases valid : exfatClusterValid m c with
    | true => rfl
    | false => simp [readExfatBitmapBit, locateExfatBitmapBit, valid] at used
  obtain ⟨cells, table⟩ := start.table ops
  rw [start.ground.readBit ⟨.refl d, fun _ _ => rfl⟩ valid, Option.some.injEq] at used
  rw [start.ground.readBit table.agree valid, table.used c valid used]
  exact ⟨rfl, fun apart => (start.inherits ops).used c ⟨valid, used, apart⟩⟩

theorem allocated_clusters_kept_one :
    readExfatBitmapBit (blockfsMount oneFileDevice).1 besideFs.dev 4 = some true := by
  obtain ⟨-, -, -, -, -, allocated, -⟩ := oneFileDevice_facts
  exact (allocated_clusters_kept oneFileDevice_mounted _ allocated).1

end TangPingOS
