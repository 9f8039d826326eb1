import TangPingOS.Exfat.SmallVolume
import TangPingOS.Vfs.Opening

/-! # Looking up paths

A path is looked up by its directory and its last component, which `find_exfat_root_entry`
copies into a buffer of 64 bytes without a check. Whatever it finds therefore has the path that
was asked for, unless the component was cut.
-/

namespace TangPingOS

open Lib

def IsPath (path : Bytes) : Prop :=
  ∃ components : List Bytes, components ≠ [] ∧ (∀ c ∈ components, c ≠ [] ∧ slash ∉ c) ∧
    path = components.flatMap (slash :: ·)

def lastComponent (path : Bytes) : Bytes := path.drop (lastSlash path + 1)

def parentOf (path : Bytes) : Bytes :=
  if lastSlash path = 0 then rootPath else path.take (lastSlash path)

theorem splitPath_eq (path : Bytes) :
    splitPath path =
      if path.head? = some slash ∧ lastSlash path ≤ 62 ∧ lastComponent path ≠ [] then
        some (parentOf path, copyLimited 64 (lastComponent path))
      else none := by
  have filled : copyLimited 64 (lastComponent path) = [] ↔ lastComponent path = [] := by
    simp [copyLimited]
  have behind : path.drop (lastSlash path + 1) = lastComponent path := rfl
  unfold splitPath parentOf
  by_cases absolute : path.head? = some slash
  · have begins : ¬ path.head? ≠ some 0x2f := not_not.mpr absolute
    rw [if_neg begins]
    by_cases first : lastSlash path = 0
    · rw [first] at behind
      simp [first, behind, filled, absolute]
    · by_cases long : lastSlash path ≤ 62
      · simp [first, behind, filled, absolute, long, show ¬ 64 ≤ lastSlash path + 1 by omega]
      · simp [first, long, show 64 ≤ lastSlash path + 1 by omega]
  · have other : path.head? ≠ some 0x2f := absolute
    rw [if_pos other, if_neg fun all => absolute all.1]

theorem IsPath.childPath_eq (isPath : IsPath path) :
    path.head? = some slash ∧ lastComponent path ≠ [] ∧ childPath (parentOf path) (lastComponent path) = path := by
  obtain ⟨components, filled, plain, rfl⟩ := isPath
  obtain ⟨front, name, rfl⟩ := List.eq_nil_or_concat components |>.resolve_left filled
  obtain ⟨named, noSlash⟩ := plain name (by simp)
  have whole : (front.concat name).flatMap (slash :: ·) = front.flatMap (slash :: ·) ++ slash :: name := by simp
  have last : lastSlash (front.flatMap (slash :: ·) ++ slash :: name) = (front.flatMap (slash :: ·)).length :=
    lastSlash_eq noSlash _
  have component : lastComponent (front.flatMap (slash :: ·) ++ slash :: name) = name := by
    rw [lastComponent, last]
    simp [List.drop_append]
  rw [whole, component]
  refine ⟨?_, named, ?_⟩
  · cases front <;> simp
  · cases front with
    | nil => rw [parentOf, last]; rfl
    | cons c front =>
      have long : 2 ≤ ((c :: front).flatMap (slash :: ·)).length := by
        have present := List.length_pos_iff.mpr (plain c (by simp)).1
        rw [List.flatMap_cons, List.length_append, List.length_cons]
        omega
      have notRoot : (c :: front).flatMap (slash :: ·) ≠ rootPath := by
        intro same
        rw [same] at long
        exact absurd long (by decide)
      rw [parentOf, last, if_neg (by omega), List.take_left, childPath_append notRoot]

def FindsExactly (entries : List RootEntry) (path : Bytes) : Prop :=
  ∀ i e, findExfatRootEntry entries path = some i → entries[i]? = some e → path = childPath e.parent e.name

/-- The last component does not fit its buffer, and a file has the name that is left of it. -/
def CutToMatch (entries : List RootEntry) (path : Bytes) : Prop :=
  63 < (lastComponent path).length ∧ lastSlash path ≤ 62 ∧
    ∃ e ∈ entries, e.parent = parentOf path ∧ e.name = (lastComponent path).take 63

theorem findExfatRootEntry_path (found : findExfatRootEntry entries path = some i) (there : entries[i]? = some e) :
    lastSlash path ≤ 62 ∧ e.parent = parentOf path ∧ e.name = (lastComponent path).take 63 := by
  obtain ⟨parent, name, isSplit, e', first⟩ := findExfatRootEntry_eq_some.mp found
  cases Option.some.inj (there.symm.trans first.here)
  have passes := first.passes
  simp only [Bool.and_eq_true, beq_iff_eq] at passes
  rw [splitPath_eq] at isSplit
  split at isSplit
  · rename_i fits
    cases isSplit
    exact ⟨fits.2.1, passes⟩
  · cases isSplit

theorem childPath_injective (same : childPath dir name = childPath dir name') : name = name' := by
  unfold childPath at same
  split at same
  · exact (List.cons.inj same).2
  · exact (List.cons.inj (List.append_cancel_left same)).2

theorem findsExactly_iff (isPath : IsPath path) : FindsExactly entries path ↔ ¬ CutToMatch entries path := by
  obtain ⟨absolute, named, whole⟩ := isPath.childPath_eq
  constructor
  · rintro exactly ⟨long, fits, e, member, ofDir, cut⟩
    have isSplit := splitPath_eq path
    rw [if_pos ⟨absolute, fits, named⟩] at isSplit
    have isFound : (findExfatRootEntry entries path).isSome := by
      simp only [findExfatRootEntry, isSplit, List.findIdx?_isSome, List.any_eq_true]
      exact ⟨e, member, by simp [ofDir, cut, copyLimited]⟩
    obtain ⟨i, found⟩ := Option.isSome_iff_exists.mp isFound
    obtain ⟨_, _, _, e', first⟩ := findExfatRootEntry_eq_some.mp found
    obtain ⟨-, ofDir', cut'⟩ := findExfatRootEntry_path found first.here
    have same := exactly i e' found first.here
    rw [ofDir', cut'] at same
    have short := congrArg List.length (childPath_injective (whole.trans same))
    rw [List.length_take] at short
    omega
  · intro uncut i e found there
    obtain ⟨fits, ofDir, cut⟩ := findExfatRootEntry_path found there
    have short : (lastComponent path).length ≤ 63 := by
      by_contra long
      exact uncut ⟨Nat.not_le.mp long, fits, e, List.mem_of_getElem? there, ofDir, cut⟩
    rw [ofDir, cut, List.take_of_length_le short, whole]

/-- Lookups are exact for the paths that no cut makes match; two of these paths never lead to one file. -/
theorem lookups_exact_iff (entries : List RootEntry) (path : Bytes) (isPath : IsPath path) :
    (FindsExactly entries path ↔ ¬ CutToMatch entries path) ∧
      ∀ other, IsPath other → ¬ CutToMatch entries path → ¬ CutToMatch entries other →
        ∀ i, findExfatRootEntry entries path = some i → findExfatRootEntry entries other = some i →
          other = path := by
  refine ⟨findsExactly_iff isPath, ?_⟩
  intro other isPath' uncut uncut' i found found'
  obtain ⟨_, _, _, e, first⟩ := findExfatRootEntry_eq_some.mp found
  rw [(findsExactly_iff isPath).mpr uncut i e found first.here]
  exact (findsExactly_iff isPath').mpr uncut' i e found' first.here

/-- The path of a file in the root directory whose name is so many times the letter `a`. -/
def longPath (length : Nat) : Bytes := slash :: List.replicate length 0x61

theorem isPath_longPath (positive : 0 < length) : IsPath (longPath length) := by
  refine ⟨[List.replicate length 0x61], by simp, ?_, by simp [longPath]⟩
  intro c member
  rw [List.mem_singleton.mp member]
  refine ⟨by simpa using Nat.pos_iff_ne_zero.mp positive, ?_⟩
  intro inside
  exact absurd (List.eq_of_mem_replicate inside) (by decide)

/-- A file entry, a stream entry and five name entries for a name of 63 letters. -/
def longNameSet : Sector :=
  sectorOf ([(0, [0x85, 6]), (4, le16 0x20), (32, [0xc0, 0, 0, 63]), (52, le32 4), (56, le64 5)] ++
    (List.range 5).map fun i => (64 + 32 * i, exfatNameEntry (List.replicate 15 0x61)))

def longNameDevice : Device :=
  smallDevice 1 2 16 2 0 sixteenClusters_fit
    [(1, sectorOf [(8, le32 fatEnd), (12, le32 fatEnd), (16, le32 fatEnd)]), (2, longNameSet)]

theorem lookups_exact_uncut :
    FindsExactly (blockfsMount longNameDevice).2.rootEntries (longPath 63) ↔
      ¬ CutToMatch (blockfsMount longNameDevice).2.rootEntries (longPath 63) :=
  (lookups_exact_iff _ _ (isPath_longPath (by decide))).1

set_option maxRecDepth 100000 in
/-- Two paths lead to the file, of which only the first is its own. -/
theorem cut_path_found :
    IsPath (longPath 63) ∧ IsPath (longPath 64) ∧ longPath 63 ≠ longPath 64 ∧
      findExfatRootEntry (blockfsMount longNameDevice).2.rootEntries (longPath 63) = some 0 ∧
      findExfatRootEntry (blockfsMount longNameDevice).2.rootEntries (longPath 64) = some 0 ∧
      ¬ FindsExactly (blockfsMount longNameDevice).2.rootEntries (longPath 64) := by
  have facts : longPath 63 ≠ longPath 64 ∧
      findExfatRootEntry (blockfsMount longNameDevice).2.rootEntries (longPath 63) = some 0 ∧
      findExfatRootEntry (blockfsMount longNameDevice).2.rootEntries (longPath 64) = some 0 ∧
      ((blockfsMount longNameDevice).2.rootEntries[0]?).map (fun e => childPath e.parent e.name) =
        some (longPath 63) := by
    decide +kernel
  obtain ⟨differ, found, found', named⟩ := facts
  refine ⟨isPath_longPath (by decide), isPath_longPath (by decide), differ, found, found', ?_⟩
  intro exactly
  obtain ⟨e, there, own⟩ := Option.map_eq_some_iff.mp named
  exact differ (own.symm.trans (exactly 0 e found' there).symm)

end TangPingOS
