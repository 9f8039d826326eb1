import TangPingOS.Exfat.Names

/-! # What a mount reads from the root directory

In a directory whose sets are in order, `parse_exfat_directory_chain` comes by every
in-use set once, so that the table then holds an entry for each, as long as it has
room.
-/

namespace TangPingOS

open Lib

variable {st : DirParse} {b i lba left q slot : Nat}

/-- Sector `q` of the root directory, counted along its chain. -/
def rootSectorAt (m : Mount) (d : Device) (q : Nat) : Option Nat :=
  (rootChain m d (q / m.sectorsPerCluster)).map fun b => heapSector m b (q % m.sectorsPerCluster)

/-- A root directory in order: its chain runs into no loop, the sets of every sector are in order,
    and behind a sector with an end mark there is nothing. -/
structure DirectoryOk (m : Mount) (d : Device) : Prop where
  simple : ∀ i i' b, rootChain m d i = some b → rootChain m d i' = some b → i = i'
  sectors : ∀ lba, RootSector m d lba → SectorOk (d.data lba)
  ended : ∀ q q' lba lba' k k', rootSectorAt m d q = some lba → rootSectorAt m d q' = some lba' → q < q' →
    k < 16 → k' < 16 → (d.data lba).get (k * 32) = 0 → (d.data lba').get (k' * 32) = 0

section Sectors

variable {m : Mount} {d : Device} (vol : Volume m d)

include vol

theorem rootSector_iff : RootSector m d lba ↔ ∃ q, rootSectorAt m d q = some lba := by
  have pos := vol.sectorsPerCluster_pos
  constructor
  · rintro ⟨i, b, j, chain, inside, rfl⟩
    refine ⟨j + m.sectorsPerCluster * i, ?_⟩
    rw [rootSectorAt, Nat.add_mul_div_left _ _ pos, Nat.div_eq_of_lt inside, Nat.zero_add, chain,
      Nat.add_mul_mod_self_left, Nat.mod_eq_of_lt inside, Option.map_some]
  · rintro ⟨q, found⟩
    obtain ⟨b, chain, rfl⟩ := Option.map_eq_some_iff.mp found
    exact ⟨_, b, _, chain, Nat.mod_lt _ pos, rfl⟩

theorem rootSectorAt_inj (ok : DirectoryOk m d) (found : rootSectorAt m d q = some lba)
    (found' : rootSectorAt m d q' = some lba) : q = q' := by
  have pos := vol.sectorsPerCluster_pos
  obtain ⟨b, chain, isLba⟩ := Option.map_eq_some_iff.mp found
  obtain ⟨b', chain', isLba'⟩ := Option.map_eq_some_iff.mp found'
  obtain ⟨rfl, columns⟩ := vol.heapSector_inj (exfatResolveCluster_valid chain)
    (exfatResolveCluster_valid chain') (Nat.mod_lt _ pos) (Nat.mod_lt _ pos) (isLba.trans isLba'.symm)
  have rows := ok.simple _ _ _ chain chain'
  rw [← Nat.div_add_mod q m.sectorsPerCluster, ← Nat.div_add_mod q' m.sectorsPerCluster, rows, columns]

end Sectors

/-- Slot `k` of sector `q'` comes before slot `slot` of sector `q`. -/
def Before (q slot q' k : Nat) : Prop := q' < q ∨ q' = q ∧ k < slot

/-- The entries stand for the sets before slot `slot` of sector `q`. -/
structure Parsed (m : Mount) (d : Device) (q slot : Nat) (entries : List RootEntry) : Prop where
  sound : ∀ e ∈ entries, e.parent = rootPath ∧ ∃ q' k lba, rootSectorAt m d q' = some lba ∧
    FileSlot (d.data lba) k ∧ Before q slot q' k ∧ e.name = setName (d.data lba) k
  complete : entries.length < maxRootEntries → ∀ q' k lba, rootSectorAt m d q' = some lba →
    FileSlot (d.data lba) k → Before q slot q' k → setName (d.data lba) k ≠ [] →
    ∃ e ∈ entries, e.name = setName (d.data lba) k
  distinct : entries.Pairwise fun e e' => e.name ≠ e'.name

/-- The entries stand for all sets. -/
structure AllParsed (m : Mount) (d : Device) (entries : List RootEntry) : Prop where
  sound : ∀ e ∈ entries, e.parent = rootPath ∧ ∃ lba k, RootSector m d lba ∧
    FileSlot (d.data lba) k ∧ e.name = setName (d.data lba) k
  complete : entries.length < maxRootEntries → ∀ lba k, RootSector m d lba → FileSlot (d.data lba) k →
    setName (d.data lba) k ≠ [] → ∃ e ∈ entries, e.name = setName (d.data lba) k
  distinct : entries.Pairwise fun e e' => e.name ≠ e'.name

namespace Parsed

variable {m : Mount} {d : Device} {q slot : Nat} {entries : List RootEntry}
  (parsed : Parsed m d q slot entries)

include parsed

theorem advance {q₂ slot₂ : Nat} (wider : ∀ q' k, Before q slot q' k → Before q₂ slot₂ q' k)
    (empty : ∀ q' k lba, rootSectorAt m d q' = some lba → FileSlot (d.data lba) k →
      Before q₂ slot₂ q' k → Before q slot q' k) : Parsed m d q₂ slot₂ entries where
  sound e member := by
    obtain ⟨parent, q', k, lba, found, file, before, name⟩ := parsed.sound e member
    exact ⟨parent, q', k, lba, found, file, wider q' k before, name⟩
  complete short q' k lba found file before named :=
    parsed.complete short q' k lba found file (empty q' k lba found file before) named
  distinct := parsed.distinct

theorem skip (here : rootSectorAt m d q = some lba) (other : (d.data lba).get (slot * 32) ≠ 0x85) :
    Parsed m d q (slot + 1) entries := by
  apply parsed.advance
  · intro q' k before
    unfold Before at before ⊢
    omega
  · intro q' k lba' found file before
    unfold Before at before ⊢
    by_cases same : q' = q ∧ k = slot
    · obtain ⟨rfl, rfl⟩ := same
      obtain rfl := Option.some.inj (here.symm.trans found)
      exact absurd file.2 other
    · omega

theorem all (vol : Volume m d)
    (empty : ∀ q' k lba, rootSectorAt m d q' = some lba → FileSlot (d.data lba) k → Before q slot q' k) :
    AllParsed m d entries where
  sound e member := by
    obtain ⟨parent, q', k, lba, found, file, -, name⟩ := parsed.sound e member
    exact ⟨parent, lba, k, (rootSector_iff vol).mpr ⟨q', found⟩, file, name⟩
  complete short lba k root file named := by
    obtain ⟨q', found⟩ := (rootSector_iff vol).mp root
    exact parsed.complete short q' k lba found file (empty q' k lba found file) named
  distinct := parsed.distinct

end Parsed

/-- What the parser has got to: the end of the directory, or sector `q`. -/
def ParseProgress (m : Mount) (d : Device) (q : Nat) (st : DirParse) : Prop :=
  st.stop ∧ AllParsed m d st.entries ∨ st.stop = false ∧ Parsed m d q 0 st.entries

section Walk

variable {m : Mount} {d : Device} (vol : Volume m d) (ok : DirectoryOk m d) (sets : SetsDistinct m d d)

include vol ok sets

theorem Parsed.add (parsed : Parsed m d q slot entries) (here : rootSectorAt m d q = some lba)
    (file : FileSlot (d.data lba) slot) :
    Parsed m d q (slot + 1)
      (match addExfatRootEntry entries rootPath (setName (d.data lba) slot) size first attributes flags with
        | none => entries
        | some entry => entries ++ [entry]) := by
  have wider (q' k : Nat) (before : Before q slot q' k) : Before q (slot + 1) q' k := by
    unfold Before at before ⊢
    omega
  have sound : ∀ e ∈ entries, e.parent = rootPath ∧ ∃ q' k lba, rootSectorAt m d q' = some lba ∧
      FileSlot (d.data lba) k ∧ Before q (slot + 1) q' k ∧ e.name = setName (d.data lba) k := by
    intro e member
    obtain ⟨parent, q', k, lba', found, file', before, name⟩ := parsed.sound e member
    exact ⟨parent, q', k, lba', found, file', wider q' k before, name⟩
  have last {q' k : Nat} (before : Before q (slot + 1) q' k) : Before q slot q' k ∨ q' = q ∧ k = slot := by
    unfold Before at before ⊢
    omega
  unfold addExfatRootEntry
  split
  · rename_i refused
    split at refused
    · rename_i why
      refine ⟨sound, fun short q' k lba' found file' before named => ?_, parsed.distinct⟩
      obtain old | ⟨rfl, rfl⟩ := last before
      · exact parsed.complete short q' k lba' found file' old named
      · obtain rfl := Option.some.inj (here.symm.trans found)
        obtain full | nameless := why
        · omega
        · exact absurd nameless named
    · cases refused
  · rename_i entry added
    split at added
    · cases added
    rw [Option.some.injEq] at added
    have parent : entry.parent = rootPath := by
      rw [← added]
      rfl
    have name : entry.name = setName (d.data lba) slot := by
      rw [← added]
      exact List.take_of_length_le (Nat.le_of_lt_succ length_setName)
    refine ⟨?_, ?_, ?_⟩
    · intro e member
      obtain old | isNew := List.mem_append.mp member
      · exact sound e old
      · obtain rfl := List.mem_singleton.mp isNew
        exact ⟨parent, q, slot, lba, here, file, .inr ⟨rfl, Nat.lt_succ_self slot⟩, name⟩
    · intro short q' k lba' found file' before named
      obtain old | ⟨rfl, rfl⟩ := last before
      · obtain ⟨e, member, isName⟩ := parsed.complete (by omega) q' k lba' found file' old named
        exact ⟨e, List.mem_append_left _ member, isName⟩
      · obtain rfl := Option.some.inj (here.symm.trans found)
        exact ⟨entry, by simp, name⟩
    · rw [List.pairwise_append]
      refine ⟨parsed.distinct, List.pairwise_singleton _ _, fun e member x isNew same => ?_⟩
      obtain rfl := List.mem_singleton.mp isNew
      -- The new set would be one that the parser has passed already.
      obtain ⟨-, q', k, lba', found, file', before, isName⟩ := parsed.sound e member
      obtain ⟨rfl, rfl⟩ := sets lba' lba k slot ((rootSector_iff vol).mpr ⟨q', found⟩)
        ((rootSector_iff vol).mpr ⟨q, here⟩) file' file (isName.symm.trans (same.trans name))
      obtain rfl := rootSectorAt_inj vol ok found here
      unfold Before at before
      omega

theorem parseSlots_spec (here : rootSectorAt m d q = some lba)
    (enough : 16 ≤ slot + fuel) (going : st.stop = false) (parsed : Parsed m d q slot st.entries) :
    ParseProgress m d (q + 1) (parseSlots (d.data lba) rootPath fuel slot st) := by
  have sectorOk := ok.sectors lba ((rootSector_iff vol).mpr ⟨q, here⟩)
  have finished {slot : Nat} {es : List RootEntry} (over_ : 16 ≤ slot) (parsed : Parsed m d q slot es) :
      Parsed m d (q + 1) 0 es := by
    apply parsed.advance
    · intro q' k before
      unfold Before at before ⊢
      omega
    · intro q' k lba' found file before
      have inside := file.1
      unfold Before at before ⊢
      omega
  induction fuel generalizing slot st with
  | zero => exact .inr ⟨going, finished (by omega) parsed⟩
  | succ fuel ih =>
    simp only [parseSlots]
    split
    · rename_i over_
      exact .inr ⟨going, finished over_ parsed⟩
    rename_i inside
    split
    · rename_i zero
      refine .inl ⟨rfl, parsed.all vol fun q' k lba' found file => ?_⟩
      -- Behind the end mark no slot is in use.
      by_contra later
      have zero' : (d.data lba').get (k * 32) = 0 := by
        unfold Before at later
        by_cases same : q' = q
        · subst same
          obtain rfl := Option.some.inj (here.symm.trans found)
          by_cases this : k = slot
          · rw [this]
            exact zero
          · exact sectorOk.ended slot k (by omega) file.1 zero
        · exact ok.ended q q' lba lba' slot k here found (by omega) (by omega) file.1 zero
      rw [file.2] at zero'
      exact absurd zero' (by decide)
    split
    · rename_i bitmap
      refine ih (by omega) going (parsed.skip here fun isFile => ?_)
      exact absurd (bitmap.symm.trans isFile) (by decide)
    split
    · rename_i other
      exact ih (by omega) going (parsed.skip here other)
    rename_i isFile
    have file : FileSlot (d.data lba) slot := ⟨Nat.not_le.mp inside, not_not.mp isFile⟩
    refine ih (by omega) going ?_
    refine (parsed.add vol ok sets here file).advance ?_ ?_
    · intro q' k before
      unfold Before at before ⊢
      omega
    · intro q' k lba' found file' before
      by_contra later
      unfold Before exfatEntrySize at before
      unfold Before at later
      obtain rfl : q' = q := by omega
      obtain rfl := Option.some.inj (here.symm.trans found)
      have small := file'.1
      have secondary := sectorOk.inUse slot k file (by omega) (by unfold secondaries; omega)
      rw [file'.2] at secondary
      exact absurd secondary (by decide)

theorem parseDirectorySectors_spec (chain : rootChain m d i = some b)
    (inside : j + left = m.sectorsPerCluster) (progress : ParseProgress m d (j + m.sectorsPerCluster * i) st) :
    ∃ st', parseDirectorySectors d rootPath (exfatClusterLba m b) j left st = (st', true) ∧
      ParseProgress m d (m.sectorsPerCluster * (i + 1)) st' := by
  have pos := vol.sectorsPerCluster_pos
  induction left generalizing j st with
  | zero =>
    refine ⟨st, rfl, ?_⟩
    rw [Nat.add_zero] at inside
    rw [inside, Nat.add_comm] at progress
    exact progress
  | succ left ih =>
    rw [parseDirectorySectors]
    split
    · rename_i stopped
      obtain ⟨-, all⟩ | ⟨going, -⟩ := progress
      · exact ⟨st, rfl, .inl ⟨stopped, all⟩⟩
      · rw [stopped] at going
        cases going
    · rename_i notStopped
      have within : j < m.sectorsPerCluster := by omega
      have valid := exfatResolveCluster_valid chain
      obtain ⟨stopped, -⟩ | ⟨going, parsed⟩ := progress
      · exact absurd stopped notStopped
      have here : rootSectorAt m d (j + m.sectorsPerCluster * i) = some (heapSector m b j) := by
        rw [rootSectorAt, Nat.add_mul_div_left _ _ pos, Nat.div_eq_of_lt within, Nat.zero_add, chain,
          Nat.add_mul_mod_self_left, Nat.mod_eq_of_lt within, Option.map_some]
      have read : blockRead d (wrap64 (exfatClusterLba m b + j)) = some (d.data (heapSector m b j)) := by
        rw [vol.wrap64_lba valid within]
        exact blockRead_eq_some.mpr ⟨vol.io.heap b j valid within, rfl⟩
      simp only [read]
      apply ih (by omega)
      have next := parseSlots_spec vol ok sets here (by omega : 16 ≤ 0 + 16) going parsed
      rw [Nat.add_right_comm] at next
      exact next

omit sets in
theorem rootChain_lt (chain : rootChain m d i = some b) : i < m.exfat.clusterCount :=
  exfatResolveCluster_lt vol.counted ok.simple chain

theorem parseDirectoryClusters_spec
    (enough : m.exfat.clusterCount ≤ i + left) (progress : ParseProgress m d (m.sectorsPerCluster * i) st) :
    AllParsed m d
      (parseDirectoryClusters m d rootPath m.exfat.rootDirCluster 0 left i st).entries := by
  have pos := vol.sectorsPerCluster_pos
  -- With no cluster from `i` on, all sectors lie before it.
  have ended (i : Nat) (st : DirParse) (progress : ParseProgress m d (m.sectorsPerCluster * i) st)
      (none : ∀ j b, rootChain m d j = some b → j < i) : AllParsed m d st.entries := by
    obtain ⟨-, all⟩ | ⟨-, parsed⟩ := progress
    · exact all
    · refine parsed.all vol fun q k lba found file => .inl ?_
      obtain ⟨b, chain, -⟩ := Option.map_eq_some_iff.mp found
      have row := none _ b chain
      have rows := Nat.mul_le_mul_left m.sectorsPerCluster row
      have split := Nat.div_add_mod q m.sectorsPerCluster
      have column := Nat.mod_lt q pos
      rw [Nat.mul_succ] at rows
      omega
  induction left generalizing i st with
  | zero => exact ended i st progress fun j b chain => (rootChain_lt vol ok chain).trans_le enough
  | succ left ih =>
    rw [parseDirectoryClusters]
    split
    · rename_i stopped
      obtain ⟨-, all⟩ | ⟨going, -⟩ := progress
      · exact all
      · rw [stopped] at going
        cases going
    split
    · rename_i missing
      refine ended i st progress fun j b chain => ?_
      by_contra later
      obtain ⟨c, found⟩ := exfatResolveCluster_earlier chain (Nat.not_lt.mp later)
      rw [missing] at found
      cases found
    · rename_i b chain
      rw [if_neg (vol.exfatClusterLba_ne_max (exfatResolveCluster_valid chain))]
      obtain ⟨st', ran, next⟩ := parseDirectorySectors_spec vol ok sets (i := i) chain (Nat.zero_add _)
        (by rw [Nat.zero_add]; exact progress)
      simp only [ran]
      exact ih (by omega) next

theorem parseRoot_spec (bitmap : AllocationBitmap) :
    AllParsed m d (parseExfatDirectoryChain m d rootPath m.exfat.rootDirCluster 0
      { bitmap := bitmap, entries := [] }).entries := by
  have geometry := vol.geometry
  have valid : exfatClusterValid m m.exfat.rootDirCluster := by
    refine exfatClusterValid_iff.mpr ⟨geometry, ?_⟩
    simp only [exfatGeometryValid, Bool.and_eq_true, decide_eq_true_eq] at geometry
    exact ⟨geometry.1.2, geometry.2⟩
  rw [parseExfatDirectoryChain, if_neg (by simp [valid, vol.blockSize])]
  apply parseDirectoryClusters_spec vol ok sets (Nat.le_add_left _ _)
  refine .inr ⟨rfl, ?_⟩
  refine ⟨fun e member => absurd member List.not_mem_nil, fun _ q k lba _ _ before => ?_, List.Pairwise.nil⟩
  unfold Before at before
  omega

end Walk

end TangPingOS
