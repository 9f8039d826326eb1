import TangPingOS.Lib.FileMap
import TangPingOS.Vfs.Ramfs

/-! # The memory filesystem as a map

Whatever is done to the slots, they look like a map from valid paths to byte strings
of at most 1024 bytes, with at most sixteen keys.
-/

namespace TangPingOS

open Lib

variable {p path : Bytes} {s s' : Ramfs}

def ValidPath (path : Bytes) : Prop :=
  ∃ name, path = slash :: name ∧ 1 ≤ name.length ∧ name.length ≤ 62 ∧ slash ∉ name

def ramfsLimits : FileMap.Limits where
  valid := ValidPath
  fileSize := ramfsFileMaxSize
  files := ramfsMaxFiles

theorem ramfsNameValid_iff :
    ramfsNameValid i name ↔ slash ∉ name ∧ (name = [] ∨ i + name.length < ramfsNameMax) := by
  induction name generalizing i with
  | nil => simp [ramfsNameValid]
  | cons c name ih =>
    rw [ramfsNameValid, List.mem_cons, not_or, List.length_cons]
    split
    · rename_i isSlash
      simp [isSlash]
    · rename_i other
      have apart : slash ≠ c := fun same => other same.symm
      split
      · simp only [reduceCtorEq, false_or, false_iff]
        omega
      · rw [ih]
        constructor
        · rintro ⟨clean, rfl | short⟩
          · exact ⟨⟨apart, clean⟩, .inr (by simp only [List.length_nil]; omega)⟩
          · exact ⟨⟨apart, clean⟩, .inr (by omega)⟩
        · rintro ⟨⟨-, clean⟩, none | short⟩
          · cases none
          · exact ⟨clean, .inr (by omega)⟩

theorem ramfsPathValid_iff : ramfsPathValid path ↔ ValidPath path := by
  unfold ValidPath
  cases path with
  | nil => simp [ramfsPathValid]
  | cons c name =>
    simp only [ramfsPathValid, Bool.and_eq_true, beq_iff_eq, bne_iff_ne, ramfsNameValid_iff,
      ramfsNameMax, List.cons.injEq]
    constructor
    · rintro ⟨⟨rfl, some_⟩, clean, none | short⟩
      · exact absurd none some_
      · exact ⟨name, ⟨rfl, rfl⟩, List.length_pos_iff.mpr some_, by omega, clean⟩
    · rintro ⟨_, ⟨rfl, rfl⟩, long, short, clean⟩
      exact ⟨⟨rfl, List.length_pos_iff.mp long⟩, clean, .inr (by omega)⟩

theorem ValidPath.copyPath (valid : ValidPath path) : copyPath path = path := by
  obtain ⟨name, rfl, -, short, -⟩ := valid
  apply List.take_of_length_le
  simp only [ramfsNameMax, List.length_cons]
  omega

def RamfsFile.content (f : RamfsFile) : Bytes := f.data.slice 0 f.size

def Ramfs.files (s : Ramfs) : FileMap := fun p => (findFile p s).map fun i => (s i).content

/-- What all slots keep. -/
structure RamfsOk (s : Ramfs) : Prop where
  distinct : ∀ i j, (s i).inUse → (s j).inUse → (s i).name = (s j).name → i = j
  named : ∀ i, (s i).inUse → ValidPath (s i).name
  small : ∀ i, (s i).size ≤ ramfsFileMaxSize

theorem ramfsOk_init : RamfsOk (ramfsInit s) where
  distinct i j used := by simp [ramfsInit] at used
  named i used := by simp [ramfsInit] at used
  small i := by simp [ramfsInit]

theorem files_init : (ramfsInit s).files = fun _ => none := by
  funext p
  have free : findFile p (ramfsInit s) = none := by
    simp [findFile, ramfsInit]
  simp [Ramfs.files, free]

section Lookup

variable {s : Ramfs} {p : Bytes} {i : Fin ramfsMaxFiles} {f : RamfsFile}

theorem findFile_none : findFile p s = none ↔ ∀ i, (s i).inUse → (s i).name ≠ p := by
  simp [findFile]

theorem findFile_used (found : findFile p s = some i) : (s i).inUse ∧ (s i).name = p := by
  simpa using List.find?_some found

theorem RamfsOk.findFile_eq (ok : RamfsOk s) (used : (s i).inUse) (named : (s i).name = p) :
    findFile p s = some i := by
  cases found : findFile p s with
  | none => exact absurd named (findFile_none.mp found i used)
  | some j =>
    obtain ⟨used_j, named_j⟩ := findFile_used found
    rw [ok.distinct j i used_j used (named_j.trans named.symm)]

theorem files_eq (ok : RamfsOk s) (used : (s i).inUse) (named : (s i).name = p) :
    s.files p = some (s i).content := by
  simp [Ramfs.files, ok.findFile_eq used named]

theorem files_eq_none : s.files p = none ↔ ∀ i, (s i).inUse → (s i).name ≠ p := by
  rw [Ramfs.files, Option.map_eq_none_iff, findFile_none]

variable (ok : RamfsOk s)

include ok

/-- One slot is overwritten; if it is in use then, no other one has its name. -/
theorem RamfsOk.update (fresh : f.inUse → ∀ j, j ≠ i → (s j).inUse → (s j).name ≠ f.name)
    (named : f.inUse → ValidPath f.name) (small : f.size ≤ ramfsFileMaxSize) :
    RamfsOk (Function.update s i f) := by
  constructor
  · intro j k used_j used_k same
    by_cases at_j : j = i <;> by_cases at_k : k = i
    · rw [at_j, at_k]
    · subst at_j
      rw [Function.update_self] at used_j same
      rw [Function.update_of_ne at_k] at used_k same
      exact absurd same.symm (fresh used_j k at_k used_k)
    · subst at_k
      rw [Function.update_self] at used_k same
      rw [Function.update_of_ne at_j] at used_j same
      exact absurd same (fresh used_k j at_j used_j)
    · rw [Function.update_of_ne at_j] at used_j same
      rw [Function.update_of_ne at_k] at used_k same
      exact ok.distinct j k used_j used_k same
  · intro j used_j
    by_cases at_j : j = i
    · subst at_j
      rw [Function.update_self] at used_j ⊢
      exact named used_j
    · rw [Function.update_of_ne at_j] at used_j ⊢
      exact ok.named j used_j
  · intro j
    by_cases at_j : j = i
    · subst at_j
      rwa [Function.update_self]
    · rw [Function.update_of_ne at_j]
      exact ok.small j

theorem RamfsOk.files_update (kept : RamfsOk (Function.update s i f))
    (before : (s i).inUse → (s i).name ≠ q) (behind : f.inUse → f.name ≠ q) :
    Ramfs.files (Function.update s i f) q = s.files q := by
  cases found : findFile q s with
  | none =>
    have absent : s.files q = none := by rw [Ramfs.files, found, Option.map_none]
    rw [absent, files_eq_none]
    intro j used_j
    by_cases at_j : j = i
    · subst at_j
      rw [Function.update_self] at used_j ⊢
      exact behind used_j
    · rw [Function.update_of_ne at_j] at used_j ⊢
      exact findFile_none.mp found j used_j
  | some j =>
    obtain ⟨used_j, named_j⟩ := findFile_used found
    have at_j : j ≠ i := by
      rintro rfl
      exact before used_j named_j
    have same : (Function.update s i f : Ramfs) j = s j := Function.update_of_ne at_j _ _
    rw [files_eq kept (i := j) (by rwa [same]) (by rwa [same]), files_eq ok used_j named_j, same]

/-- A slot that becomes, or stays, the one of path `p`. -/
theorem RamfsOk.store (mine : ∀ j, (s j).inUse → (s j).name = p → j = i)
    (own : (s i).inUse → (s i).name = p) (used : f.inUse) (named : f.name = p)
    (valid : ValidPath p) (small : f.size ≤ ramfsFileMaxSize) :
    RamfsOk (Function.update s i f) ∧
      Ramfs.files (Function.update s i f) = Function.update s.files p (some f.content) := by
  have kept : RamfsOk (Function.update s i f) := by
    apply ok.update
    · intro _ j other used_j same
      exact other (mine j used_j (same.trans named))
    · intro _
      rwa [named]
    · exact small
  refine ⟨kept, funext fun q => ?_⟩
  by_cases same : q = p
  · subst same
    have here : (Function.update s i f : Ramfs) i = f := Function.update_self _ _ _
    rw [Function.update_self, files_eq kept (i := i) (by rwa [here]) (by rwa [here]), here]
  · rw [Function.update_of_ne same]
    apply ok.files_update kept
    · intro used_i again
      exact same (again.symm.trans (own used_i))
    · intro _ again
      exact same (again.symm.trans named)

theorem RamfsOk.drop (used : (s i).inUse) (named : (s i).name = p) (free : f.inUse = false) (empty : f.size = 0) :
    RamfsOk (Function.update s i f) ∧
      Ramfs.files (Function.update s i f) = Function.update s.files p none := by
  have unused : ¬f.inUse := by simp [free]
  have kept : RamfsOk (Function.update s i f) :=
    ok.update (fun used => absurd used unused) (fun used => absurd used unused)
      (empty ▸ Nat.zero_le _)
  refine ⟨kept, funext fun q => ?_⟩
  by_cases same : q = p
  · subst same
    rw [Function.update_self, files_eq_none]
    intro j used_j
    by_cases at_j : j = i
    · subst at_j
      rw [Function.update_self] at used_j
      exact absurd used_j unused
    · rw [Function.update_of_ne at_j] at used_j ⊢
      intro again
      exact at_j (ok.distinct j i used_j used (again.trans named.symm))
  · rw [Function.update_of_ne same]
    apply ok.files_update kept
    · intro _ again
      exact same (again.symm.trans named)
    · exact fun used => absurd used unused

theorem RamfsOk.ncard_keys : s.files.keys.ncard = (Finset.univ.filter fun i => (s i).inUse).card := by
  have names : s.files.keys
      = ((Finset.univ.filter fun i => (s i).inUse).image fun i => (s i).name) := by
    ext q
    simp only [FileMap.keys, Finset.coe_image, Finset.coe_filter,
      Finset.mem_univ, true_and]
    constructor
    · intro present
      cases found : findFile q s with
      | none => simp [Ramfs.files, found] at present
      | some i => exact ⟨i, findFile_used found⟩
    · rintro ⟨i, used, named⟩
      simp [files_eq ok used named]
  rw [names, Set.ncard_coe_finset, Finset.card_image_of_injOn]
  intro i used_i j used_j same
  simp only [Finset.coe_filter, Finset.mem_univ, true_and] at used_i used_j
  exact ok.distinct i j used_i used_j same

theorem RamfsOk.room (free : (s i).inUse = false) : s.files.keys.ncard < ramfsMaxFiles := by
  have some_free : (Finset.univ.filter fun i => (s i).inUse) ⊂ Finset.univ :=
    Finset.filter_ssubset.mpr ⟨i, Finset.mem_univ i, by simp [free]⟩
  calc
    s.files.keys.ncard = (Finset.univ.filter fun i => (s i).inUse).card := ok.ncard_keys
    _ < (Finset.univ : Finset (Fin ramfsMaxFiles)).card := Finset.card_lt_card some_free
    _ = ramfsMaxFiles := Finset.card_fin _

theorem RamfsOk.full (used : ∀ i, (s i).inUse) : ¬s.files.keys.ncard < ramfsMaxFiles := by
  rw [ok.ncard_keys, Finset.filter_true_of_mem fun i _ => used i, Finset.card_univ]
  exact lt_irrefl _

end Lookup

/-- The slot that a path has or is given. -/
structure SlotOf (p : Bytes) (s s' : Ramfs) (i : Fin ramfsMaxFiles) : Prop where
  ok : RamfsOk s'
  used : (s' i).inUse
  named : (s' i).name = p
  content : (s' i).content = (s.files p).getD []
  others : ∀ q, q ≠ p → s'.files q = s.files q
  editable : FileMap.Editable ramfsLimits s.files p

theorem findOrCreate_some (ok : RamfsOk s)
    (valid : ValidPath p) (found : findOrCreate p s = some (i, s')) : SlotOf p s s' i := by
  unfold findOrCreate at found
  split at found
  · rename_i j present
    cases found
    obtain ⟨used, named⟩ := findFile_used present
    have held := files_eq ok used named
    exact ⟨ok, used, named, by rw [held]; rfl, fun _ _ => rfl, .inl (by rw [held]; rfl)⟩
  · rename_i absent
    obtain ⟨j, first, made⟩ := Option.map_eq_some_iff.mp found
    cases made
    have free : (s i).inUse = false := by simpa using List.find?_some first
    have unused : ¬(s i).inUse := by simp [free]
    obtain ⟨kept, files⟩ := ok.store (f := { s i with inUse := true, size := 0, name := copyPath p })
      (fun j used named => absurd named (findFile_none.mp absent j used))
      (fun used => absurd used unused) rfl valid.copyPath valid (Nat.zero_le _)
    have here : s.files p = none := by rw [Ramfs.files, absent, Option.map_none]
    refine ⟨kept, ?_, ?_, ?_, ?_, .inr (ok.room free)⟩
    · rw [Function.update_self]
    · rw [Function.update_self]
      exact valid.copyPath
    · rw [Function.update_self, here]
      rfl
    · intro q other
      rw [files, Function.update_of_ne other]

theorem findOrCreate_none (ok : RamfsOk s) (failed : findOrCreate p s = none) :
    ¬FileMap.Editable ramfsLimits s.files p := by
  unfold findOrCreate at failed
  split at failed
  · cases failed
  · rename_i absent
    have used : ∀ i, (s i).inUse := by simpa [createFile] using failed
    have here : s.files p = none := by rw [Ramfs.files, absent, Option.map_none]
    rintro (present | room)
    · simp [here] at present
    · exact ok.full used room

namespace RamfsFile

variable {f : RamfsFile} {offset size i : Nat} {bytes : Bytes}

@[simp] theorem length_content : f.content.length = f.size := by
  simp [content]

theorem getD_content : f.content.getD i 0 = if i < f.size then f.data.get i else 0 := by
  split
  · rename_i inside
    rw [content, Buf.getD_slice inside, Nat.zero_add]
  · apply List.getD_eq_default
    rw [length_content]
    omega

@[simp] theorem zeroTo_size : (f.zeroTo size).size = f.size := by
  unfold zeroTo
  split <;> rfl

@[simp] theorem zeroTo_inUse (f : RamfsFile) (size : Nat) : (f.zeroTo size).inUse = f.inUse := by
  unfold zeroTo
  split <;> rfl

@[simp] theorem zeroTo_name (f : RamfsFile) (size : Nat) : (f.zeroTo size).name = f.name := by
  unfold zeroTo
  split <;> rfl

theorem get_zeroTo (inside : i < ramfsFileMaxSize) :
    (f.zeroTo size).data.get i = if f.size ≤ i ∧ i < size then 0 else f.data.get i := by
  unfold zeroTo
  split
  · rename_i gap
    rw [Buf.get_write, List.length_replicate, Nat.add_sub_cancel' (Nat.le_of_lt gap)]
    by_cases covered : f.size ≤ i ∧ i < size
    · rw [if_pos ⟨inside, covered⟩, if_pos covered, List.getD_replicate _ (by omega)]
    · rw [if_neg fun both => covered both.2, if_neg covered]
  · rw [if_neg (by omega)]

@[simp] theorem written_size : (f.written offset bytes).size = max f.size (offset + bytes.length) := by
  simp only [written]
  split
  · rename_i longer
    rw [zeroTo_size] at longer
    exact (Nat.max_eq_right (Nat.le_of_lt longer)).symm
  · rename_i within
    rw [zeroTo_size] at within
    exact zeroTo_size.trans (Nat.max_eq_left (Nat.not_lt.mp within)).symm

@[simp] theorem written_inUse : (f.written offset bytes).inUse = f.inUse := by
  simp only [written]
  split <;> exact zeroTo_inUse f offset

@[simp] theorem written_name : (f.written offset bytes).name = f.name := by
  simp only [written]
  split <;> exact zeroTo_name f offset

theorem written_data : (f.written offset bytes).data = (f.zeroTo offset).data.write offset bytes := by
  simp only [written]
  split <;> rfl

theorem content_written (fits : offset + bytes.length ≤ ramfsFileMaxSize) (small : f.size ≤ ramfsFileMaxSize) :
    (f.written offset bytes).content = overwrite f.content offset bytes := by
  apply ext_getD
  · rw [length_content, length_overwrite, length_content, written_size]
  · intro i inside
    rw [length_content, written_size] at inside
    have low : i < ramfsFileMaxSize := by omega
    rw [getD_content, written_size, if_pos inside, getD_overwrite, getD_content, written_data,
      Buf.get_write]
    by_cases covered : offset ≤ i ∧ i < offset + bytes.length
    · rw [if_pos ⟨low, covered⟩, if_pos covered]
    · rw [if_neg fun both => covered both.2, if_neg covered, get_zeroTo low]
      by_cases held : i < f.size
      · rw [if_neg (by omega), if_pos held]
      · rw [if_pos (by omega), if_neg held]

theorem content_truncate (fits : size ≤ ramfsFileMaxSize) :
    RamfsFile.content { f.zeroTo size with size} = resize f.content size := by
  apply ext_getD
  · rw [length_content, length_resize]
  · intro i inside
    rw [length_content] at inside
    have here : i < size := inside
    rw [getD_content, if_pos inside, getD_resize here, getD_content]
    show (f.zeroTo size).data.get i = _
    rw [get_zeroTo (by omega)]
    by_cases held : i < f.size
    · rw [if_neg (by omega), if_pos held]
    · rw [if_pos (by omega), if_neg held]

end RamfsFile

section Operations

variable {s : Ramfs} {p : Bytes}

/-- A slot is given other contents, found or created under `p`. -/
theorem SlotOf.edited (change : Bytes → Bytes)
    (slot : SlotOf p s s' i) (valid : ValidPath p) (used : f.inUse) (named : f.name = p)
    (small : f.size ≤ ramfsFileMaxSize) (content : f.content = change (s' i).content) :
    RamfsOk (Function.update s' i f) ∧
      FileMap.edit ramfsLimits s.files p change = some (Ramfs.files (Function.update s' i f)) := by
  obtain ⟨kept, files⟩ := slot.ok.store (f := f)
    (fun j used_j named_j => slot.ok.distinct j i used_j slot.used (named_j.trans slot.named.symm))
    (fun _ => slot.named) used named valid small
  refine ⟨kept, ?_⟩
  rw [FileMap.edit_some slot.editable, files, content, slot.content]
  congr 1
  funext q
  by_cases same : q = p
  · rw [same, Function.update_self, Function.update_self]
  · rw [Function.update_of_ne same, Function.update_of_ne same, slot.others q same]

/-- The checks before a change are those of the map. -/
theorem ramfsPathValid_or {b : Bool} (exceeds : b ↔ ramfsFileMaxSize < n) :
    (!ramfsPathValid p || b) ↔ ¬(ramfsLimits.valid p ∧ n ≤ ramfsLimits.fileSize) := by
  have tooLong : b ↔ ¬n ≤ ramfsLimits.fileSize := exceeds.trans Nat.not_le.symm
  have valid : ramfsPathValid p ↔ ramfsLimits.valid p := ramfsPathValid_iff
  rw [Bool.or_eq_true, Bool.not_eq_true', ← Bool.not_eq_true, tooLong, valid, ← not_and_or]

theorem ramfsWrite_refines (ok : RamfsOk s) (offset : Nat) (bytes : Bytes) :
    RamfsOk (ramfsWrite p offset bytes s).2 ∧
      s.files.write ramfsLimits p offset bytes
        = ((ramfsWrite p offset bytes s).1, (ramfsWrite p offset bytes s).2.files) := by
  have exceeds : decide (ramfsFileMaxSize < offset) || decide (ramfsFileMaxSize - offset < bytes.length) ↔
      ramfsFileMaxSize < offset + bytes.length := by
    simp only [Bool.or_eq_true, decide_eq_true_eq]
    omega
  unfold ramfsWrite FileMap.write
  rw [Bool.or_assoc]
  split
  · rename_i refused
    rw [if_neg ((ramfsPathValid_or exceeds).mp refused)]
    exact ⟨ok, rfl⟩
  · rename_i accepted
    have allowed := not_not.mp (mt (ramfsPathValid_or exceeds).mpr accepted)
    rw [if_pos allowed]
    obtain ⟨valid, fits⟩ : ValidPath p ∧ offset + bytes.length ≤ ramfsFileMaxSize := allowed
    cases found : findOrCreate p s with
    | none =>
      rw [FileMap.edit_none (findOrCreate_none ok found)]
      exact ⟨ok, rfl⟩
    | some made =>
      obtain ⟨i, s'⟩ := made
      have slot := findOrCreate_some ok valid found
      have small := slot.ok.small i
      obtain ⟨kept, edited⟩ := slot.edited (f := (s' i).written offset bytes)
        (fun content => overwrite content offset bytes) valid (by rw [RamfsFile.written_inUse, slot.used])
        (by rw [RamfsFile.written_name, slot.named])
        (by rw [RamfsFile.written_size]; omega) (RamfsFile.content_written fits small)
      rw [edited]
      exact ⟨kept, rfl⟩

theorem ramfsWrite_accepted (ok : RamfsOk s) (valid : ValidPath p)
    (fits : offset + bytes.length ≤ ramfsFileMaxSize) (editable : FileMap.Editable ramfsLimits s.files p) :
    ∃ s', ramfsWrite p offset bytes s = (some bytes.length, s') ∧ RamfsOk s' ∧
      s'.files = Function.update s.files p (some (overwrite ((s.files p).getD []) offset bytes)) := by
  obtain ⟨kept, agrees⟩ := ramfsWrite_refines ok (p := p) offset bytes
  unfold FileMap.write at agrees
  rw [if_pos (show ramfsLimits.valid p ∧ _ ≤ ramfsLimits.fileSize from ⟨valid, fits⟩),
    FileMap.edit_some editable] at agrees
  obtain ⟨count, files⟩ := Prod.mk.inj agrees
  exact ⟨_, Prod.ext count.symm rfl, kept, files.symm⟩

theorem ramfsWrite_refused (ok : RamfsOk s) (offset : Nat) (bytes : Bytes)
    (refused : ¬(ValidPath p ∧ offset + bytes.length ≤ ramfsFileMaxSize ∧
      FileMap.Editable ramfsLimits s.files p)) : ramfsWrite p offset bytes s = (none, s) := by
  have failed : (ramfsWrite p offset bytes s).1 = none := by
    have agrees := (ramfsWrite_refines ok (p := p) offset bytes).2
    have count := congrArg Prod.fst agrees
    rw [← Option.not_isSome_iff_eq_none, ← count, FileMap.write_isSome_iff]
    exact refused
  unfold ramfsWrite at failed ⊢
  split at failed
  · rename_i guard
    rw [if_pos guard]
  · rename_i guard
    rw [if_neg guard]
    split at failed
    · rfl
    · cases failed

theorem ramfsTruncate_refines (ok : RamfsOk s) (size : Nat) :
    RamfsOk (ramfsTruncate p size s).2 ∧
      s.files.truncate ramfsLimits p size
        = ((ramfsTruncate p size s).1, (ramfsTruncate p size s).2.files) := by
  unfold ramfsTruncate FileMap.truncate
  split
  · rename_i refused
    rw [if_neg ((ramfsPathValid_or decide_eq_true_iff).mp refused)]
    exact ⟨ok, rfl⟩
  · rename_i accepted
    have allowed := not_not.mp (mt (ramfsPathValid_or decide_eq_true_iff).mpr accepted)
    rw [if_pos allowed]
    obtain ⟨valid, fits⟩ : ValidPath p ∧ size ≤ ramfsFileMaxSize := allowed
    cases found : findOrCreate p s with
    | none =>
      rw [FileMap.edit_none (findOrCreate_none ok found)]
      exact ⟨ok, rfl⟩
    | some made =>
      obtain ⟨i, s'⟩ := made
      have slot := findOrCreate_some ok valid found
      obtain ⟨kept, edited⟩ := slot.edited (f := { (s' i).zeroTo size with size := size })
        (fun content => resize content size) valid ((RamfsFile.zeroTo_inUse ..).trans slot.used)
        ((RamfsFile.zeroTo_name ..).trans slot.named)
        fits (RamfsFile.content_truncate fits)
      rw [edited]
      exact ⟨kept, rfl⟩

theorem ramfsUnlink_refines (ok : RamfsOk s) :
    RamfsOk (ramfsUnlink p s).2 ∧
      s.files.unlink p = ((ramfsUnlink p s).1, (ramfsUnlink p s).2.files) := by
  unfold ramfsUnlink FileMap.unlink
  cases found : findFile p s with
  | none =>
    have here : s.files p = none := by rw [Ramfs.files, found, Option.map_none]
    rw [here]
    split <;> exact ⟨ok, rfl⟩
  | some i =>
    obtain ⟨used, named⟩ := findFile_used found
    have valid := ramfsPathValid_iff.mpr (named ▸ ok.named i used)
    obtain ⟨kept, files⟩ := ok.drop used named
      (f := { s i with inUse := false, size := 0, name := [] }) rfl rfl
    rw [files_eq ok used named, valid]
    exact ⟨kept, by rw [← files]; rfl⟩

theorem ramfsRead_refines : ramfsRead p offset len s = s.files.read p offset len := by
  unfold ramfsRead FileMap.read Ramfs.files
  cases found : findFile p s with
  | none => rfl
  | some i =>
    simp only [Option.map_some, RamfsFile.content, Buf.drop_slice, Buf.take_slice, Nat.zero_add]
    split
    · rename_i beyond
      rw [Nat.sub_eq_zero_of_le beyond, Nat.min_zero]
      rfl
    · rfl

theorem ramfsSize_refines : ramfsSize p s = s.files.size p := by
  unfold ramfsSize FileMap.size Ramfs.files
  cases findFile p s with
  | none => rfl
  | some i => simp

end Operations

/-! ## Listing -/

theorem ramfsListFrom_eq (before : seen ≤ index) :
    ramfsListFrom index s slots seen =
      ((slots.filter fun i => (s i).inUse)[index - seen]?).map fun i =>
        { name := copyDirentName (s i).name, type := .file, size := (s i).size } := by
  induction slots generalizing seen with
  | nil => simp [ramfsListFrom]
  | cons i slots ih =>
    unfold ramfsListFrom
    cases used : (s i).inUse with
    | false => simpa [used] using ih before
    | true =>
      by_cases here : seen = index
      · simp [used, here]
      · obtain ⟨more, same⟩ : ∃ more, index - seen = more + 1 := ⟨index - seen - 1, by omega⟩
        have rest := @ih (seen + 1) (by omega)
        rw [show index - (seen + 1) = more by omega] at rest
        simp [used, here, same, rest]

theorem ValidPath.copyDirentName (valid : ValidPath path) : copyDirentName path = path.tail := by
  obtain ⟨name, rfl, -, short, -⟩ := valid
  apply List.take_of_length_le
  simp only [vfsDirentNameMax, List.head?_cons, if_true, List.tail_cons]
  omega

theorem RamfsOk.listed (ok : RamfsOk s) :
    ∃ order : List Bytes, order.Nodup ∧ (∀ p, p ∈ order ↔ (s.files p).isSome) ∧
      ∀ index, ramfsList [slash] index s = some ((order[index]?).map fun p =>
        { name := p.tail, type := .file, size := (s.files.size p).getD 0 }) := by
  refine ⟨((List.finRange ramfsMaxFiles).filter fun i => (s i).inUse).map fun i => (s i).name,
    ?_, ?_, ?_⟩
  · refine ((List.nodup_finRange _).filter _).map_on ?_
    intro i used_i j used_j same
    exact ok.distinct i j (List.mem_filter.mp used_i).2 (List.mem_filter.mp used_j).2 same
  · intro p
    constructor
    · intro present
      obtain ⟨i, used, named⟩ := List.mem_map.mp present
      rw [files_eq ok (List.mem_filter.mp used).2 named]
      rfl
    · intro present
      cases found : findFile p s with
      | none => simp [Ramfs.files, found] at present
      | some i =>
        obtain ⟨used, named⟩ := findFile_used found
        exact List.mem_map.mpr ⟨i, List.mem_filter.mpr ⟨List.mem_finRange i, used⟩, named⟩
  · intro index
    rw [ramfsList, if_neg (by simp), ramfsListFrom_eq (Nat.zero_le index),
      List.getElem?_map, Option.map_map]
    congr 1
    apply Option.map_congr
    intro i member
    have used : (s i).inUse := (List.mem_filter.mp (List.mem_of_getElem? member)).2
    simp [(ok.named i used).copyDirentName, FileMap.size, files_eq ok used rfl]

/-! ## Runs -/

inductive RamfsCall where
  | write (path : Bytes) (offset : Nat) (bytes : Bytes)
  | truncate (path : Bytes) (newSize : Nat)
  | unlink (path : Bytes)
  | read (path : Bytes) (offset len : Nat)
  | size (path : Bytes)
  | list (path : Bytes) (index : Nat)

def RamfsCall.run : RamfsCall → Ramfs → Ramfs
  | .write path offset bytes, s => (ramfsWrite path offset bytes s).2
  | .truncate path newSize, s => (ramfsTruncate path newSize s).2
  | .unlink path, s => (ramfsUnlink path s).2
  | _, s => s

noncomputable def RamfsCall.apply : RamfsCall → FileMap → FileMap
  | .write path offset bytes, m => (m.write ramfsLimits path offset bytes).2
  | .truncate path newSize, m => (m.truncate ramfsLimits path newSize).2
  | .unlink path, m => (m.unlink path).2
  | _, m => m

/-- Whichever call comes next, slots and map give the same result; a call that fails leaves the map
    as it was. -/
structure RamfsAgrees (s : Ramfs) (m : FileMap) : Prop where
  write : ∀ p offset bytes, (ramfsWrite p offset bytes s).1 = (m.write ramfsLimits p offset bytes).1
  truncate : ∀ p size, (ramfsTruncate p size s).1 = (m.truncate ramfsLimits p size).1
  unlink : ∀ p, (ramfsUnlink p s).1 = (m.unlink p).1
  read : ∀ p offset len, ramfsRead p offset len s = m.read p offset len
  size : ∀ p, ramfsSize p s = m.size p
  list : ∃ order : List Bytes, order.Nodup ∧ (∀ p, p ∈ order ↔ (m p).isSome) ∧
    ∀ index, ramfsList [slash] index s = some ((order[index]?).map fun p =>
      { name := p.tail, type := .file, size := (m.size p).getD 0 })
  listOther : ∀ p index, p ≠ [slash] → ramfsList p index s = none
  valid : ∀ p content, m p = some content → ValidPath p ∧ content.length ≤ ramfsFileMaxSize
  few : m.keys.ncard ≤ ramfsMaxFiles
  writeFailed : ∀ p offset bytes, (m.write ramfsLimits p offset bytes).1 = none →
    (m.write ramfsLimits p offset bytes).2 = m
  truncateFailed : ∀ p size, (m.truncate ramfsLimits p size).1 = false →
    (m.truncate ramfsLimits p size).2 = m
  unlinkFailed : ∀ p, (m.unlink p).1 = false → (m.unlink p).2 = m

theorem RamfsOk.agrees (ok : RamfsOk s) : RamfsAgrees s s.files where
  write p offset bytes := by rw [(ramfsWrite_refines ok offset bytes).2]
  truncate p size := by rw [(ramfsTruncate_refines ok size).2]
  unlink p := by rw [(ramfsUnlink_refines ok).2]
  read p offset len := ramfsRead_refines
  size p := ramfsSize_refines
  list := ok.listed
  listOther p index other := by rw [ramfsList, if_pos other]
  valid p content held := by
    obtain ⟨i, found, rfl⟩ := Option.map_eq_some_iff.mp held
    obtain ⟨used, named⟩ := findFile_used found
    exact ⟨named ▸ ok.named i used, by rw [RamfsFile.length_content]; exact ok.small i⟩
  few := by
    rw [ok.ncard_keys]
    exact (Finset.card_le_univ _).trans_eq (Fintype.card_fin _)
  writeFailed _ _ _ := FileMap.write_failed
  truncateFailed _ _ := FileMap.truncate_failed
  unlinkFailed _ := FileMap.unlink_failed

theorem RamfsCall.run_refines (ok : RamfsOk s) (call : RamfsCall) :
    RamfsOk (call.run s) ∧ (call.run s).files = call.apply s.files := by
  cases call with
  | write path offset bytes =>
    obtain ⟨kept, same⟩ := ramfsWrite_refines ok (p := path) offset bytes
    exact ⟨kept, (congrArg Prod.snd same).symm⟩
  | truncate path size =>
    obtain ⟨kept, same⟩ := ramfsTruncate_refines ok (p := path) size
    exact ⟨kept, (congrArg Prod.snd same).symm⟩
  | unlink path =>
    obtain ⟨kept, same⟩ := ramfsUnlink_refines ok (p := path)
    exact ⟨kept, (congrArg Prod.snd same).symm⟩
  | read | size | list => exact ⟨ok, rfl⟩

theorem ramfs_run (ok : RamfsOk s) (calls : List RamfsCall) :
    RamfsOk (calls.foldl (fun s call => call.run s) s) ∧
      Ramfs.files (calls.foldl (fun s call => call.run s) s)
        = calls.foldl (fun m call => call.apply m) s.files := by
  induction calls generalizing s with
  | nil => exact ⟨ok, rfl⟩
  | cons call calls ih =>
    obtain ⟨kept, same⟩ := call.run_refines ok
    rw [List.foldl_cons, List.foldl_cons, ← same]
    exact ih kept

/-- After any sequence of calls the slots answer as the map does. -/
theorem ramfs_refines (before : Ramfs) (calls : List RamfsCall) :
    RamfsAgrees (calls.foldl (fun s call => call.run s) (ramfsInit before))
      (calls.foldl (fun m call => call.apply m) fun _ => none) := by
  obtain ⟨ok, same⟩ := ramfs_run ramfsOk_init calls
  rw [files_init] at same
  rw [← same]
  exact ok.agrees

end TangPingOS
