import TangPingOS.Memory.Entries
import TangPingOS.Memory.PageAllocator

/-! # What mapping a page changes

The lower half of an address space is seen here as a function from virtual pages to the entries
of their mappings, whatever these lead to. The page tables behind it form a forest of three levels, and
`vmm_map_page_in` updates the function at one page, however many tables it has to make on the way.
-/

namespace TangPingOS

open Lib

variable {write : Bool} {p : List Nat} {k k' k₀ m : Machine} {cr3Phys flags i page phys r t virt vp : Nat}
  {roots : Nat → Prop} {userOnly : Prop}

/-! ## Translation -/

/-- The page behind a page of virtual memory, if the current address space lets a user read it. -/
def userPage (cr3Phys page : Nat) (write : Bool) (m : Machine) : Option Nat :=
  if userVirtMax ≤ page * pageSize then none
  else (translateLevels write m (entryPage cr3Phys) (tablePath (page * pageSize))).map entryPage

theorem tablePath_page : tablePath (virt / pageSize * pageSize) = tablePath virt := by
  have same : ∀ k, virt / pageSize * pageSize / 2 ^ (12 + k) = virt / 2 ^ (12 + k) := by
    intro k
    rw [pow_add, ← Nat.div_div_eq_div_mul, ← Nat.div_div_eq_div_mul,
      show (2 ^ 12 : Nat) = pageSize from rfl, Nat.mul_div_cancel _ (by decide)]
  simp only [tablePath, pml4Index, pdptIndex, pdIndex, ptIndex]
  rw [same 27, same 18, same 9, same 0]

theorem mask_eq : entry &&& pteAddrMask = entryPage entry * pageSize := by
  have low : (entry &&& pteAddrMask) % 2 ^ 12 = 0 := by
    have mask : pteAddrMask % 2 ^ 12 = 0 := by decide
    rw [Nat.and_mod_two_pow, mask, Nat.and_zero]
  exact (Nat.div_mul_cancel (Nat.dvd_of_mod_eq_zero low)).symm

theorem entry_offset :
    (entry &&& pteAddrMask) ||| (virt &&& (pageSize - 1)) = entryPage entry * pageSize + virt % pageSize := by
  have low : virt &&& (pageSize - 1) = virt % pageSize := Nat.and_two_pow_sub_one_eq_mod virt 12
  have below : virt % pageSize < 2 ^ 12 := Nat.mod_lt _ (by decide)
  rw [low, mask_eq, Nat.mul_comm]
  exact (Nat.two_pow_add_eq_or_of_lt below _).symm

/-- Every address of a page translates to the same place of one page. -/
theorem vmmTranslateUserAddr_eq :
    vmmTranslateUserAddr cr3Phys virt write m
      = (userPage cr3Phys (virt / pageSize) write m).map fun page => page * pageSize + virt % pageSize := by
  have bound : userVirtMax ≤ virt ↔ userVirtMax ≤ virt / pageSize * pageSize := by
    simp only [userVirtMax, pageSize]
    omega
  unfold vmmTranslateUserAddr userPage
  rw [tablePath_page]
  by_cases beyond : userVirtMax ≤ virt
  · rw [if_pos beyond, if_pos (bound.mp beyond)]
    rfl
  · rw [if_neg beyond, if_neg (mt bound.mpr beyond), Option.map_map]
    congr 1
    funext entry
    exact entry_offset

theorem vmmTranslateUserAddr_lt
    (found : vmmTranslateUserAddr cr3Phys virt write m = some phys) : virt < userVirtMax := by
  unfold vmmTranslateUserAddr at found
  split at found
  · cases found
  · omega

/-- Inside a page, what lies behind one another is found behind one another. -/
theorem vmmTranslateUserAddr_add
    (found : vmmTranslateUserAddr cr3Phys virt write m = some phys) (inside : virt % pageSize + i < pageSize) :
    vmmTranslateUserAddr cr3Phys (virt + i) write m = some (phys + i) := by
  have samePage : (virt + i) / pageSize = virt / pageSize := by
    unfold pageSize at inside ⊢
    omega
  have offset : (virt + i) % pageSize = virt % pageSize + i := by
    unfold pageSize at inside ⊢
    omega
  rw [vmmTranslateUserAddr_eq] at found ⊢
  rw [samePage, offset]
  obtain ⟨page, mapped, rfl⟩ := Option.map_eq_some_iff.mp found
  rw [mapped, Option.map_some, Nat.add_assoc]

theorem translateLevels_congr
    (same : ∀ p i b, p ++ [i] <+: path → walk (links k.mem) t p = some b → k'.mem b i = k.mem b i) :
    translateLevels write k' t path = translateLevels write k t path := by
  induction path generalizing t with
  | nil => rfl
  | cons i rest ih =>
    have here := same [] i t (List.prefix_append [i] rest) rfl
    simp only [translateLevels, here]
    cases present : anyBit (k.mem t i) ptePresent with
    | false => rfl
    | true =>
      have link := links_eq_some.mpr ⟨present, rfl⟩
      rw [ih]
      intro p j b le found
      apply same (i :: p) j b (List.cons_prefix_cons.mpr ⟨rfl, le⟩)
      rw [walk, link]
      exact found

/-! ## Translations that stay -/

/-- The page is a table that the lower half of an address space leads to. -/
def LowerTable (cr3Phys : Nat) (m : Machine) (t : Nat) : Prop :=
  ∃ p, UserPath p ∧ p.length ≤ 3 ∧ walk (links m.mem) (entryPage cr3Phys) p = some t

def SameTables (cr3Phys : Nat) (m m' : Machine) : Prop := ∀ t, LowerTable cr3Phys m t → m'.mem t = m.mem t

namespace SameTables

variable {m' : Machine} (same : SameTables cr3Phys m m')

include same

theorem walk_eq (path : UserPath p) (short : p.length ≤ 4) :
    walk (links m'.mem) (entryPage cr3Phys) p = walk (links m.mem) (entryPage cr3Phys) p := by
  apply walk_congr
  intro q i b le found
  have shorter := (List.prefix_append q [i]).trans le
  have long := le.length_le
  rw [List.length_append, List.length_singleton] at long
  exact links_congr (by rw [same b ⟨q, path.of_begins shorter, by omega, found⟩])

theorem lowerTable_iff : LowerTable cr3Phys m' t ↔ LowerTable cr3Phys m t := by
  constructor
  · rintro ⟨p, path, short, found⟩
    exact ⟨p, path, short, by rwa [same.walk_eq path (by omega)] at found⟩
  · rintro ⟨p, path, short, found⟩
    exact ⟨p, path, short, by rwa [same.walk_eq path (by omega)]⟩

theorem translate (virt : Nat) (write : Bool) :
    vmmTranslateUserAddr cr3Phys virt write m' = vmmTranslateUserAddr cr3Phys virt write m := by
  unfold vmmTranslateUserAddr
  split
  · rfl
  · rename_i low
    have path := userPath_tablePath (Nat.not_le.mp low)
    rw [translateLevels_congr]
    intro p i b le found
    have shorter := (List.prefix_append p [i]).trans le
    have long := le.length_le
    simp only [tablePath, List.length_append, List.length_cons] at long
    rw [same b ⟨p, path.of_begins shorter, by omega, found⟩]

end SameTables

/-! ## The lower half as a function -/

def userPages : Nat := 2 ^ 35

theorem page_lt (low : virt < userVirtMax) : virt / pageSize < userPages := by
  simp only [userVirtMax, pageSize, userPages] at low ⊢
  omega

theorem place_page : (page * pageSize + virt % pageSize) / pageSize = page := by
  unfold pageSize
  omega

def upperPath (vp : Nat) : List Nat := [vp / 2 ^ 27 % 512, vp / 2 ^ 18 % 512, vp / 2 ^ 9 % 512]

theorem tablePath_eq : tablePath virt = upperPath (virt / pageSize) ++ [virt / pageSize % 512] := by
  have same : ∀ n, virt / pageSize / 2 ^ n = virt / 2 ^ (12 + n) := by
    intro n
    rw [pow_add, ← Nat.div_div_eq_div_mul]
    rfl
  simp only [upperPath, same]
  rfl

theorem length_upperPath : (upperPath vp).length = 3 := rfl

theorem userPath_upperPath (low : vp < userPages) : UserPath (upperPath vp) := by
  unfold userPages at low
  simp only [UserPath, upperPath, List.length_cons, List.length_nil, List.forall_mem_cons, List.head?_cons,
    Option.mem_def, Option.some.injEq]
  refine ⟨by omega, ⟨by omega, by omega, by omega, List.forall_mem_nil _⟩, ?_⟩
  omega

theorem upperPath_inj (low : vp < userPages) (low' : vp' < userPages)
    (same : upperPath vp = upperPath vp') (last : vp % 512 = vp' % 512) : vp = vp' := by
  unfold userPages at low low'
  simp only [upperPath, List.cons.injEq] at same
  omega

/-- The entry of a virtual page in the address space `r`, if it is present. -/
def Machine.space (k : Machine) (r vp : Nat) : Option Nat :=
  (walk (links k.mem) r (upperPath vp)).bind fun t =>
    if anyBit (k.mem t (vp % 512)) ptePresent then some (k.mem t (vp % 512)) else none

def permits (write : Bool) (entry : Nat) : Bool := anyBit entry pteUser && (!write || anyBit entry pteWritable)

/-! ## The tables -/

/-- The places of tables: up to three indices, the first below 256. -/
def TablePlace (roots : Nat → Prop) (r : Nat) (p : List Nat) : Prop := roots r ∧ UserPath p ∧ p.length ≤ 3

def IsTable (roots : Nat → Prop) (k : Machine) (t : Nat) : Prop := Held (links k.mem) (TablePlace roots) t

/-- An entry that leads to a table, of user pages if there are no others. -/
structure OpenEntry (userOnly : Prop) (entry : Nat) : Prop where
  user : userOnly → anyBit entry pteUser
  writable : anyBit entry pteWritable
  small : anyBit entry pteHuge = false

/-- The tables of the address spaces `roots`: pages of their own. If all pages have been mapped for users, then the
    entries of the tables above the last level hold nothing back. -/
structure Tables (userOnly : Prop) (roots : Nat → Prop) (k : Machine) : Prop where
  forest : Forest (links k.mem) (TablePlace roots)
  owned : ∀ t, IsTable roots k t → k.pmm.used t ∧ t < k.pmm.maxPageIndex
  opened : ∀ r p i t, TablePlace roots r (p ++ [i]) → walk (links k.mem) r p = some t →
    anyBit (k.mem t i) ptePresent → OpenEntry userOnly (k.mem t i)

theorem TablePlace.of_begins (at_ : TablePlace roots r q) (le : p <+: q) : TablePlace roots r p :=
  ⟨at_.1, at_.2.1.of_begins le, le.length_le.trans at_.2.2⟩

theorem TablePlace.shorter
    (at_ : TablePlace roots r (p ++ [i])) : TablePlace roots r p := at_.of_begins (List.prefix_append p [i])

theorem tablePlace_upperPath (root : roots r) (low : vp < userPages) :
    TablePlace roots r (upperPath vp) := ⟨root, userPath_upperPath low, Nat.le_refl 3⟩

theorem tablePlace_nil (root : roots r) : TablePlace roots r [] :=
  ⟨root, by simp [UserPath], by simp⟩

namespace Tables

theorem root_lt (tables : Tables userOnly roots k) (root : roots r) : r < 2 ^ 40 :=
  k.pmm.page_small (tables.owned r ⟨r, [], tablePlace_nil root, rfl⟩).2

/-- A table of the first two levels is not one of the third. -/
theorem level (tables : Tables userOnly roots k) (at_ : TablePlace roots r (p ++ [i]))
    (table : walk (links k.mem) r p = some t) (root' : roots r') (low : vp < userPages) :
    walk (links k.mem) r' (upperPath vp) ≠ some t := by
  intro table'
  obtain ⟨-, rfl⟩ := tables.forest.unshared r r' p (upperPath vp) t at_.shorter (tablePlace_upperPath root' low)
    table table'
  have short := at_.2.2
  rw [List.length_append, length_upperPath] at short
  simp at short

theorem free_outside (tables : Tables userOnly roots k) (free : k.pmm.used page = false) : ¬ IsTable roots k page :=
  fun held => Pmm.ne_of_used (tables.owned page held).1 free rfl

variable (tables : Tables True roots k)

include tables

/-- The upper levels hold nothing back, so only the last entry decides. -/
theorem translateLevels_walk (at_ : TablePlace roots r (p ++ rest)) (table : walk (links k.mem) r p = some t) :
    translateLevels write k t (rest ++ [last]) =
      (walk (links k.mem) t rest).bind fun b => translateLevels write k b [last] := by
  induction rest generalizing p t with
  | nil => rfl
  | cons i rest ih =>
    have grouped : p ++ i :: rest = p ++ [i] ++ rest := by simp
    rw [grouped] at at_
    have here := at_.of_begins (List.prefix_append _ rest)
    have more : (rest ++ [last]).isEmpty = false := by simp
    rw [List.cons_append, translateLevels, walk]
    cases present : anyBit (k.mem t i) ptePresent with
    | false => simp [links, present]
    | true =>
      obtain ⟨user, writable, small⟩ := tables.opened r p i t here table present
      have link := links_eq_some.mpr ⟨present, rfl⟩
      have found : walk (links k.mem) r (p ++ [i]) = some (entryPage (k.mem t i)) := by
        rw [walk_concat, table, Option.bind_some, link]
      simp only [user, writable, small, link]
      simpa using ih at_ found

/-- What the walk of `vmm_translate_user_addr` comes to. -/
theorem translateLevels_eq (root : roots r) (low : vp < userPages) :
    translateLevels write k r (upperPath vp ++ [vp % 512]) =
      (k.space r vp).bind fun entry => if permits write entry then some entry else none := by
  have walked : translateLevels write k r (upperPath vp ++ [vp % 512]) =
      (walk (links k.mem) r (upperPath vp)).bind fun b => translateLevels write k b [vp % 512] :=
    tables.translateLevels_walk (p := []) (tablePlace_upperPath root low) rfl
  rw [walked, Machine.space, Option.bind_assoc]
  congr 1
  funext t
  cases present : anyBit (k.mem t (vp % 512)) ptePresent <;>
    cases user : anyBit (k.mem t (vp % 512)) pteUser <;>
      cases writable : anyBit (k.mem t (vp % 512)) pteWritable <;> cases write <;>
        simp [translateLevels, permits, present, user, writable]

theorem vmmTranslateUserAddr_space (root : roots r) (low : virt < userVirtMax) :
    vmmTranslateUserAddr (r * pageSize) virt write k =
      (k.space r (virt / pageSize)).bind fun entry =>
        if permits write entry then some (entryPage entry * pageSize + virt % pageSize) else none := by
  rw [vmmTranslateUserAddr, if_neg (Nat.not_le.mpr low), entryPage_mul (tables.root_lt root), tablePath_eq,
    tables.translateLevels_eq root (page_lt low)]
  cases k.space r (virt / pageSize) with
  | none => rfl
  | some entry =>
    simp only [Option.bind_some]
    split
    · rw [Option.map_some, entry_offset]
    · rfl

end Tables

/-! ## Changes -/

/-- The tables after a change that has added some, taken from the free pages, and has written to no page in use
    but tables. -/
structure Rebuilt (userOnly : Prop) (roots : Nat → Prop) (k k' : Machine) : Prop where
  tables : Tables userOnly roots k'
  used : ∀ page, k.pmm.used page → k'.pmm.used page
  foreign : ∀ page, k.pmm.used page → ¬ IsTable roots k page → k'.mem page = k.mem page
  fresh : ∀ page, IsTable roots k' page → IsTable roots k page ∨ k.pmm.used page = false
  upper : ∀ r i, roots r → 256 ≤ i → k'.mem r i = k.mem r i
  size : k'.pmm.maxPageIndex = k.pmm.maxPageIndex
  cr3 : k'.cr3 = k.cr3
  kernelCr3 : k'.kernelCr3 = k.kernelCr3

def SameSpaces (roots : Nat → Prop) (k k' : Machine) : Prop :=
  ∀ r vp, roots r → vp < userPages → k'.space r vp = k.space r vp

namespace Rebuilt

variable {k'' : Machine}

theorem refl (tables : Tables userOnly roots k) : Rebuilt userOnly roots k k where
  tables := tables
  used _ isUsed := isUsed
  foreign _ _ _ := rfl
  fresh _ held := .inl held
  upper _ _ _ _ := rfl
  size := rfl
  cr3 := rfl
  kernelCr3 := rfl

theorem trans (first : Rebuilt userOnly roots k k')
    (second : Rebuilt userOnly roots k' k'') : Rebuilt userOnly roots k k'' where
  tables := second.tables
  used page isUsed := second.used page (first.used page isUsed)
  foreign page isUsed outside := by
    rw [second.foreign page (first.used page isUsed), first.foreign page isUsed outside]
    intro held
    rcases first.fresh page held with old | free
    · exact outside old
    · exact Pmm.ne_of_used isUsed free rfl
  fresh page held := by
    rcases second.fresh page held with before | free
    · exact first.fresh page before
    · right
      rw [← Bool.not_eq_true]
      intro isUsed
      rw [first.used page isUsed] at free
      cases free
  upper r i root high := (second.upper r i root high).trans (first.upper r i root high)
  size := second.size.trans first.size
  cr3 := second.cr3.trans first.cr3
  kernelCr3 := second.kernelCr3.trans first.kernelCr3

end Rebuilt

section Steps

variable {next : Nat}

/-- What `vmm_next_level` can have done: it has made a table, or found one and perhaps let users in. -/
theorem vmmNextLevel_cases (ran : vmmNextLevel t i flags k = .ok (next, k')) :
    (anyBit (k.mem t i) ptePresent = false ∧ ∃ page, ∃ inside : page < k.pmm.maxPageIndex,
      k.pmm.used page = false ∧ k' = (k.takePage page inside).setWord t i
        (page * pageSize ||| ptePresent ||| pteWritable ||| (flags &&& pteUser)) ∧ next = page) ∨
    (anyBit (k.mem t i) ptePresent ∧ (k' = k ∨ k' = k.setWord t i (k.mem t i ||| pteUser)) ∧
      next = entryPage (k.mem t i)) := by
  unfold vmmNextLevel at ran
  cases present : anyBit (k.mem t i) ptePresent with
  | false =>
    rw [present, Bool.not_false] at ran
    obtain ⟨⟨phys, k₁⟩, allocated, rest⟩ := bind_eq_ok ran
    obtain ⟨page, inside, free, rfl, rfl⟩ := pmmAllocPage_ok allocated
    cases rest
    obtain ⟨-, target⟩ := tableEntry (k.pmm.page_small inside) flags
    refine .inl ⟨rfl, page, inside, free, rfl, ?_⟩
    rw [Machine.setWord_mem_self]
    exact target
  | true =>
    rw [present, Bool.not_true] at ran
    by_cases user : anyBit flags pteUser
    · rw [if_pos user] at ran
      cases ran
      refine .inr ⟨rfl, .inr rfl, ?_⟩
      rw [Machine.setWord_mem_self, entryPage_user]
    · rw [if_neg user] at ran
      cases ran
      exact .inr ⟨rfl, .inl rfl, rfl⟩

/-- The entry that `vmm_next_level` makes is open. -/
theorem openEntry_table (user : userOnly → anyBit flags pteUser) :
    OpenEntry userOnly (page * pageSize ||| ptePresent ||| pteWritable ||| (flags &&& pteUser)) := by
  have kept (only : userOnly) : anyBit (flags &&& pteUser) pteUser := by
    rw [anyBit, Nat.and_assoc]
    exact user only
  have apart : anyBit (flags &&& pteUser) pteHuge = false := by
    have none_ : pteUser &&& pteHuge = 0 := by decide
    simp [anyBit, Nat.and_assoc, none_]
  constructor
  · intro only
    simp [anyBit_or, kept only]
  · have here : anyBit pteWritable pteWritable := by decide
    simp [anyBit_or, here]
  · have low : anyBit (page * pageSize) pteHuge = false := anyBit_page (by decide)
    have present : anyBit ptePresent pteHuge = false := by decide
    have writable : anyBit pteWritable pteHuge = false := by decide
    simp [anyBit_or, low, present, writable, apart]

theorem space_congr (walks : walk (links k'.mem) r (upperPath vp) = walk (links k.mem) r (upperPath vp))
    (words : ∀ t, walk (links k.mem) r (upperPath vp) = some t → k'.mem t (vp % 512) = k.mem t (vp % 512)) :
    k'.space r vp = k.space r vp := by
  rw [Machine.space, Machine.space, walks]
  cases found : walk (links k.mem) r (upperPath vp) with
  | none => rfl
  | some t => simp [words t found]

section

variable (tables : Tables userOnly roots k)

include tables

theorem Tables.graft (user : userOnly → anyBit flags pteUser) (at_ : TablePlace roots r (p ++ [i]))
    (table : walk (links k.mem) r p = some t) (absent : anyBit (k.mem t i) ptePresent = false)
    (inside : page < k.pmm.maxPageIndex) (free : k.pmm.used page = false) :
    let k' := (k.takePage page inside).setWord t i
      (page * pageSize ||| ptePresent ||| pteWritable ||| (flags &&& pteUser))
    Rebuilt userOnly roots k k' ∧ SameSpaces roots k k' ∧ walk (links k'.mem) r (p ++ [i]) = some page := by
  intro k'
  have fresh := tables.free_outside free
  have isTable : IsTable roots k t := ⟨r, p, at_.shorter, table⟩
  have apart : t ≠ page := fun same => fresh (same ▸ isTable)
  obtain ⟨present, target⟩ := tableEntry (k.pmm.page_small inside) flags
  have word (b j : Nat) (other : b ≠ page) (elsewhere : ¬ (b = t ∧ j = i)) : k'.mem b j = k.mem b j := by
    rw [Machine.setWord_mem_other _ elsewhere]
    simp [Machine.takePage, Machine.zeroPage, other]
  have zero (j : Nat) : k'.mem page j = 0 := by
    rw [Machine.setWord_mem_other _ fun both => apart both.1.symm]
    simp [Machine.takePage, Machine.zeroPage]
  have here : k'.mem t i = page * pageSize ||| ptePresent ||| pteWritable ||| (flags &&& pteUser) :=
    Machine.setWord_mem_self _
  have link : links k'.mem t i = some page := links_eq_some.mpr (by rw [here]; exact ⟨present, target⟩)
  have others (b j : Nat) (other : b ≠ page) (elsewhere : ¬ (b = t ∧ j = i)) :
      links k'.mem b j = links k.mem b j := links_congr (word b j other elsewhere)
  have empty (j : Nat) : links k'.mem page j = none := links_eq_none.mpr (by rw [zero]; rfl)
  have found := tables.forest.walk_graft at_ table fresh link others
  have cases_ {r' : Nat} {p' : List Nat} {a : Nat} (at' : TablePlace roots r' p')
      (there : walk (links k'.mem) r' p' = some a) :=
    tables.forest.walk_graft_cases at_ table fresh link others (fun j _ => empty j) at' there
  have held {a : Nat} (isHeld : IsTable roots k' a) : a = page ∨ IsTable roots k a :=
    tables.forest.held_graft at_ table fresh link others (fun j _ => empty j) isHeld
  have taken (a : Nat) : k'.pmm.used a = (k.pmm.used a || decide (a = page)) := by
    by_cases same : a = page <;> simp [k', Machine.takePage, Pmm.take, same]
  refine ⟨⟨⟨?_, ?_, ?_⟩, ?_, ?_, ?_, ?_, rfl, rfl, rfl⟩, ?_, found⟩
  · exact tables.forest.graft at_ table fresh link others fun j _ => empty j
  · intro a isHeld
    rcases held isHeld with rfl | old
    · exact ⟨by rw [taken]; simp, inside⟩
    · exact ⟨by rw [taken, (tables.owned a old).1, Bool.true_or], (tables.owned a old).2⟩
  · intro r' p' j t' at' table' present'
    by_cases isHere : t' = t ∧ j = i
    · obtain ⟨rfl, rfl⟩ := isHere
      rw [here]
      exact openEntry_table user
    · rcases cases_ at'.shorter table' with ⟨-, -, rfl⟩ | ⟨-, old⟩
      · rw [zero] at present'
        cases present'
      · have other : t' ≠ page := fun same => fresh (same ▸ ⟨r', p', at'.shorter, old⟩)
        rw [word t' j other isHere] at present' ⊢
        exact tables.opened r' p' j t' at' old present'
  · intro a isUsed
    rw [taken, isUsed, Bool.true_or]
  · intro a isUsed outside
    funext j
    apply word
    · exact Pmm.ne_of_used isUsed free
    · rintro ⟨rfl, -⟩
      exact outside isTable
  · intro a isHeld
    rcases held isHeld with rfl | old
    · exact .inr free
    · exact .inl old
  · intro r' j root high
    apply word
    · rintro rfl
      exact fresh ⟨r', [], tablePlace_nil root, rfl⟩
    · rintro ⟨rfl, rfl⟩
      obtain ⟨-, rfl⟩ := tables.forest.unshared r r' p [] r' at_.shorter (tablePlace_nil root) table rfl
      have low := at_.2.1.2.2 j rfl
      omega
  · intro r' vp root low
    have at' := tablePlace_upperPath root low
    by_cases above : r' = r ∧ p ++ [i] <+: upperPath vp
    · obtain ⟨rfl, rest, whole⟩ := above
      have before : walk (links k.mem) r' (upperPath vp) = none := by
        rw [← whole, walk_append, walk_concat, table, Option.bind_some, links_eq_none.mpr absent, Option.bind_none]
      have after : k'.space r' vp = none := by
        cases walked : walk (links k'.mem) r' (upperPath vp) with
        | none => rw [Machine.space, walked, Option.bind_none]
        | some a =>
          rcases cases_ at' walked with ⟨-, -, rfl⟩ | ⟨elsewhere, -⟩
          · rw [Machine.space, walked, Option.bind_some, zero]
            rfl
          · exact absurd ⟨rfl, rest, whole⟩ elsewhere
      rw [after, Machine.space, before, Option.bind_none]
    · apply space_congr (tables.forest.walk_graft_other table fresh others at' above at_.shorter)
      intro t' table'
      apply word
      · rintro rfl
        exact fresh ⟨r', _, at', table'⟩
      · rintro ⟨rfl, -⟩
        exact tables.level at_ table root low table'

theorem Tables.openUp (at_ : TablePlace roots r (p ++ [i]))
    (table : walk (links k.mem) r p = some t) (present : anyBit (k.mem t i) ptePresent) :
    let k' := k.setWord t i (k.mem t i ||| pteUser)
    Rebuilt userOnly roots k k' ∧ SameSpaces roots k k' ∧
      walk (links k'.mem) r (p ++ [i]) = some (entryPage (k.mem t i)) := by
  intro k'
  have word (b j : Nat) (elsewhere : ¬ (b = t ∧ j = i)) : k'.mem b j = k.mem b j :=
    Machine.setWord_mem_other _ elsewhere
  have here : k'.mem t i = k.mem t i ||| pteUser := Machine.setWord_mem_self _
  have isPresent (b j : Nat) : anyBit (k'.mem b j) ptePresent = anyBit (k.mem b j) ptePresent := by
    by_cases isHere : b = t ∧ j = i
    · obtain ⟨rfl, rfl⟩ := isHere
      rw [here, anyBit_user (by decide)]
    · rw [word b j isHere]
  have sameLinks : links k'.mem = links k.mem := by
    funext b j
    by_cases isHere : b = t ∧ j = i
    · obtain ⟨rfl, rfl⟩ := isHere
      rw [links, links, isPresent, here, entryPage_user]
    · exact links_congr (word b j isHere)
  have sameTables (a : Nat) : IsTable roots k' a ↔ IsTable roots k a := by rw [IsTable, sameLinks, IsTable]
  refine ⟨⟨⟨?_, ?_, ?_⟩, ?_, ?_, ?_, ?_, rfl, rfl, rfl⟩, ?_, ?_⟩
  · rw [sameLinks]
    exact tables.forest
  · exact fun a held => tables.owned a ((sameTables a).mp held)
  · intro r' p' j t' at' table' present'
    rw [sameLinks] at table'
    rw [isPresent] at present'
    obtain ⟨user, writable, small⟩ := tables.opened r' p' j t' at' table' present'
    by_cases isHere : t' = t ∧ j = i
    · obtain ⟨rfl, rfl⟩ := isHere
      rw [here]
      exact ⟨fun only => by simp [anyBit_or, user only], by simp [anyBit_or, writable],
        by rwa [anyBit_user (by decide)]⟩
    · rw [word t' j isHere]
      exact ⟨user, writable, small⟩
  · exact fun _ isUsed => isUsed
  · intro a _ outside
    funext j
    apply word
    rintro ⟨rfl, -⟩
    exact outside ⟨r, p, at_.shorter, table⟩
  · exact fun a held => .inl ((sameTables a).mp held)
  · intro r' j root high
    apply word
    rintro ⟨rfl, rfl⟩
    obtain ⟨-, rfl⟩ := tables.forest.unshared r r' p [] r' at_.shorter (tablePlace_nil root) table rfl
    have low := at_.2.1.2.2 j rfl
    omega
  · intro r' vp root low
    apply space_congr (by rw [sameLinks])
    intro t' table'
    apply word
    rintro ⟨rfl, -⟩
    exact tables.level at_ table root low table'
  · rw [sameLinks, walk_concat, table]
    exact links_eq_some.mpr ⟨present, rfl⟩

theorem vmmNextLevel_rebuilt (user : userOnly → anyBit flags pteUser)
    (at_ : TablePlace roots r (p ++ [i])) (table : walk (links k.mem) r p = some t)
    (ran : vmmNextLevel t i flags k = .ok (next, k')) :
    Rebuilt userOnly roots k k' ∧ SameSpaces roots k k' ∧ walk (links k'.mem) r (p ++ [i]) = some next := by
  rcases vmmNextLevel_cases ran with ⟨absent, page, inside, free, rfl, rfl⟩ | ⟨present, rfl | rfl, rfl⟩
  · exact tables.graft user at_ table absent inside free
  · refine ⟨.refl tables, fun _ _ _ _ => rfl, ?_⟩
    rw [walk_concat, table]
    exact links_eq_some.mpr ⟨present, rfl⟩
  · exact tables.openUp at_ table present

theorem Tables.enter (root : roots r) (low : vp < userPages)
    (table : walk (links k.mem) r (upperPath vp) = some t) {entry : Nat} (present : anyBit entry ptePresent) :
    let k' := k.setWord t (vp % 512) entry
    Rebuilt userOnly roots k k' ∧ k'.space r vp = some entry ∧
      ∀ r' vp', roots r' → vp' < userPages → ¬ (r' = r ∧ vp' = vp) → k'.space r' vp' = k.space r' vp' := by
  intro k'
  have at_ := tablePlace_upperPath root low
  have word (b j : Nat) (elsewhere : ¬ (b = t ∧ j = vp % 512)) : k'.mem b j = k.mem b j :=
    Machine.setWord_mem_other _ elsewhere
  -- no table of the first two levels is written to
  have words (r' : Nat) (p' : List Nat) (j b : Nat) (at' : TablePlace roots r' (p' ++ [j]))
      (table' : walk (links k.mem) r' p' = some b) : k'.mem b j = k.mem b j := by
    apply word
    rintro ⟨rfl, -⟩
    exact tables.level at' table' root low table
  have sameLinks (r' : Nat) (p' : List Nat) (j b : Nat) (at' : TablePlace roots r' (p' ++ [j]))
      (table' : walk (links k.mem) r' p' = some b) : links k'.mem b j = links k.mem b j :=
    links_congr (words r' p' j b at' table')
  have walks {r' : Nat} {p' : List Nat} (at' : TablePlace roots r' p') :
      walk (links k'.mem) r' p' = walk (links k.mem) r' p' := tables.forest.walk_same sameLinks at'
  have sameTables (a : Nat) : IsTable roots k' a ↔ IsTable roots k a := tables.forest.held_congr sameLinks
  refine ⟨⟨⟨?_, ?_, ?_⟩, ?_, ?_, ?_, ?_, rfl, rfl, rfl⟩, ?_, ?_⟩
  · exact tables.forest.congr sameLinks
  · exact fun a held => tables.owned a ((sameTables a).mp held)
  · intro r' p' j b at' table' present'
    rw [walks at'.shorter] at table'
    rw [words r' p' j b at' table'] at present' ⊢
    exact tables.opened r' p' j b at' table' present'
  · exact fun _ isUsed => isUsed
  · intro a _ outside
    funext j
    apply word
    rintro ⟨rfl, -⟩
    exact outside ⟨r, _, at_, table⟩
  · exact fun a held => .inl ((sameTables a).mp held)
  · intro r' j root' _
    apply word
    rintro ⟨rfl, -⟩
    obtain ⟨-, same⟩ := tables.forest.unshared r r' (upperPath vp) [] r' at_ (tablePlace_nil root') table rfl
    cases same
  · rw [Machine.space, walks at_, table, Option.bind_some, Machine.setWord_mem_self, if_pos present]
  · intro r' vp' root' low' other
    have at' := tablePlace_upperPath root' low'
    apply space_congr (walks at')
    intro b table'
    apply word
    rintro ⟨rfl, last⟩
    obtain ⟨same, path⟩ := tables.forest.unshared r' r _ _ b at' at_ table' table
    exact other ⟨same, upperPath_inj low' low path last⟩

/-- The entry that `vmm_map_page_in` makes. -/
def pageEntry (physAddr flags : Nat) : Nat := (physAddr &&& pteAddrMask) ||| pteFlags flags ||| ptePresent

/-- What `vmm_map_page_in` does to the address spaces: one page of one of them is mapped. -/
structure Mapped (userOnly : Prop) (roots : Nat → Prop) (r vp entry : Nat) (k k' : Machine) : Prop
    extends Rebuilt userOnly roots k k' where
  here : k'.space r vp = some entry
  elsewhere : ∀ r' vp', roots r' → vp' < userPages → ¬ (r' = r ∧ vp' = vp) → k'.space r' vp' = k.space r' vp'

theorem vmmMapPageIn_mapped (root : roots r) (low : virt < userVirtMax) (aligned : virt % pageSize = 0)
    (alignedPhys : phys % pageSize = 0) (user : userOnly → anyBit flags pteUser)
    (ran : vmmMapPageIn (r * pageSize) virt phys flags k = .ok (done, k')) :
    done ∧ Mapped userOnly roots r (virt / pageSize) (pageEntry phys flags) k k' := by
  have inside := page_lt low
  have path : upperPath (virt / pageSize) = [pml4Index virt, pdptIndex virt, pdIndex virt] :=
    List.append_inj_left' tablePath_eq.symm rfl
  have at_ : TablePlace roots r [pml4Index virt, pdptIndex virt, pdIndex virt] := by
    rw [← path]
    exact tablePlace_upperPath root inside
  unfold vmmMapPageIn at ran
  rw [if_neg (by simp [aligned, alignedPhys])] at ran
  obtain ⟨⟨pdpt, k₁⟩, ran₁, ran⟩ := bind_eq_ok ran
  rw [entryPage_mul (tables.root_lt root)] at ran₁
  obtain ⟨one, same₁, found₁⟩ := vmmNextLevel_rebuilt (p := []) tables user at_.shorter.shorter rfl ran₁
  obtain ⟨⟨pd, k₂⟩, ran₂, ran⟩ := bind_eq_ok ran
  obtain ⟨two, same₂, found₂⟩ := vmmNextLevel_rebuilt one.tables user at_.shorter found₁ ran₂
  obtain ⟨⟨pt, k₃⟩, ran₃, ran⟩ := bind_eq_ok ran
  obtain ⟨three, same₃, found₃⟩ := vmmNextLevel_rebuilt two.tables user at_ found₂ ran₃
  cases ran
  have table : walk (links k₃.mem) r (upperPath (virt / pageSize)) = some pt := by
    rw [path]
    exact found₃
  have present : anyBit (pageEntry phys flags) ptePresent := by
    have here : anyBit ptePresent ptePresent := by decide
    simp [pageEntry, anyBit_or, here]
  obtain ⟨four, here, elsewhere⟩ := three.tables.enter root inside table present
  refine ⟨rfl, { (one.trans (two.trans three)).trans four with here := here, elsewhere := ?_ }⟩
  intro r' vp' root' low' other
  have same := elsewhere r' vp' root' low' other
  rwa [same₃ r' vp' root' low', same₂ r' vp' root' low', same₁ r' vp' root' low'] at same

theorem Tables.keep (mem : ∀ t, IsTable roots k t → k'.mem t = k.mem t)
    (used : ∀ t, IsTable roots k t → k'.pmm.used t) (size : k'.pmm.maxPageIndex = k.pmm.maxPageIndex) :
    Tables userOnly roots k' ∧ (∀ t, IsTable roots k' t ↔ IsTable roots k t) ∧ SameSpaces roots k k' := by
  have words (r : Nat) (p : List Nat) (b : Nat) (at_ : TablePlace roots r p)
      (table : walk (links k.mem) r p = some b) : k'.mem b = k.mem b := mem b ⟨r, p, at_, table⟩
  have sameLinks (r : Nat) (p : List Nat) (i b : Nat) (at_ : TablePlace roots r (p ++ [i]))
      (table : walk (links k.mem) r p = some b) : links k'.mem b i = links k.mem b i :=
    links_congr (by rw [words r p b at_.shorter table])
  have walks {r : Nat} {p : List Nat} (at_ : TablePlace roots r p) :
      walk (links k'.mem) r p = walk (links k.mem) r p := tables.forest.walk_same sameLinks at_
  have sameTables (t : Nat) : IsTable roots k' t ↔ IsTable roots k t := tables.forest.held_congr sameLinks
  refine ⟨⟨tables.forest.congr sameLinks, ?_, ?_⟩, sameTables, ?_⟩
  · intro t held
    rw [sameTables] at held
    exact ⟨used t held, size ▸ (tables.owned t held).2⟩
  · intro r p i t at_ table
    rw [walks at_.shorter] at table
    rw [words r p t at_.shorter table]
    exact tables.opened r p i t at_ table
  · intro r vp root low
    have at_ := tablePlace_upperPath root low
    apply space_congr (walks at_)
    intro t table
    rw [words r (upperPath vp) t at_ table]

end

def planted (roots : Nat → Prop) (page r : Nat) : Prop := roots r ∨ r = page

theorem pmm_take_used {pmm : Pmm} (inside : page < pmm.maxPageIndex)
    (isUsed : pmm.used a) : (pmm.take page inside).used a := by
  by_cases same : a = page <;> simp [Pmm.take, same, isUsed]

theorem Tables.plant (tables : Tables userOnly roots k) (inside : page < k.pmm.maxPageIndex)
    (free : k.pmm.used page = false) (pmm : k'.pmm = k.pmm.take page inside)
    (others : ∀ b, b ≠ page → k'.mem b = k.mem b) (empty : ∀ i < 256, k'.mem page i = 0) :
    Tables userOnly (planted roots page) k' ∧ (∀ t, IsTable (planted roots page) k' t → IsTable roots k t ∨ t = page) ∧
      SameSpaces roots k k' ∧ ∀ vp < userPages, k'.space page vp = none := by
  have fresh := tables.free_outside free
  have apart (t : Nat) (held : IsTable roots k t) : t ≠ page := by
    rintro rfl
    exact fresh held
  obtain ⟨kept, sameTables, sameSpaces⟩ := tables.keep
    (fun t held => others t (apart t held))
    (fun t held => by
      rw [pmm]
      exact pmm_take_used inside (tables.owned t held).1)
    (by rw [pmm]; rfl)
  have nothing (j : Nat) (at_ : TablePlace (planted roots page) page [j]) : links k'.mem page j = none := by
    rw [links_eq_none, empty j (at_.2.1.2.2 j rfl)]
    rfl
  have more (r : Nat) (p : List Nat) (at_ : TablePlace (planted roots page) r p) : TablePlace roots r p ∨ r = page := by
    rcases at_.1 with old | same
    · exact .inl ⟨old, at_.2⟩
    · exact .inr same
  have closed (r : Nat) (p : List Nat) (i : Nat) (at_ : TablePlace (planted roots page) r (p ++ [i])) :
      TablePlace (planted roots page) r p := at_.shorter
  have alone {p : List Nat} {a : Nat} (at_ : TablePlace (planted roots page) page p)
      (found : walk (links k'.mem) page p = some a) : p = [] ∧ a = page :=
    Forest.walk_planted closed nothing at_ found
  have held (t : Nat) (isHeld : IsTable (planted roots page) k' t) : IsTable roots k t ∨ t = page := by
    obtain ⟨r, p, at_, found⟩ := isHeld
    rcases more r p at_ with old | rfl
    · exact .inl ((sameTables t).mp ⟨r, p, old, found⟩)
    · exact .inr (alone at_ found).2
  refine ⟨⟨?_, ?_, ?_⟩, held, sameSpaces, ?_⟩
  · exact kept.forest.plant (fun isHeld => fresh ((sameTables page).mp isHeld)) more closed nothing
  · intro t isHeld
    rcases held t isHeld with old | rfl
    · exact kept.owned t ((sameTables t).mpr old)
    · rw [pmm]
      exact ⟨by simp [Pmm.take], inside⟩
  · intro r p i t at_ table present
    rcases more r _ at_ with old | rfl
    · exact kept.opened r p i t old table present
    · obtain ⟨rfl, rfl⟩ := alone at_.shorter table
      rw [empty i (at_.2.1.2.2 i rfl)] at present
      cases present
  · intro vp low
    have at_ : TablePlace (planted roots page) page (upperPath vp) := tablePlace_upperPath (.inr rfl) low
    cases found : walk (links k'.mem) page (upperPath vp) with
    | none => rw [Machine.space, found, Option.bind_none]
    | some a => cases (alone at_ found).1

theorem vmmCreateAddressSpace_ok (ran : vmmCreateAddressSpace k = .ok (cr3Phys, k')) :
    ∃ page, ∃ inside : page < k.pmm.maxPageIndex, k.pmm.used page = false ∧ cr3Phys = page * pageSize ∧
      k' = (k.takePage page inside).fillPml4 page := by
  obtain ⟨⟨phys, k₁⟩, allocated, rest⟩ := bind_eq_ok ran
  obtain ⟨page, inside, free, rfl, rfl⟩ := pmmAllocPage_ok allocated
  have exact_ : page * pageSize / pageSize = page := Nat.mul_div_cancel page (by decide)
  simp only [exact_] at rest
  cases rest
  exact ⟨page, inside, free, rfl, rfl⟩

theorem Machine.fillPml4_other (k : Machine) (inside : page < k.pmm.maxPageIndex) (other : b ≠ page) :
    ((k.takePage page inside).fillPml4 page).mem b = k.mem b := by
  simp [Machine.fillPml4, Machine.takePage, Machine.zeroPage, other]

/-- `vmm_create_address_space` adds an empty address space. -/
theorem Tables.create (tables : Tables userOnly roots k) (ran : vmmCreateAddressSpace k = .ok (r * pageSize, k')) :
    Tables userOnly (planted roots r) k' ∧ (∀ t, IsTable (planted roots r) k' t → IsTable roots k t ∨ t = r) ∧
      SameSpaces roots k k' ∧ ∀ vp < userPages, k'.space r vp = none := by
  obtain ⟨page, inside, free, same, rfl⟩ := vmmCreateAddressSpace_ok ran
  cases Nat.mul_right_cancel (by decide) same
  exact tables.plant inside free rfl (fun b other => k.fillPml4_other inside other)
    fun i low => by simp [Machine.fillPml4, low]

end Steps

theorem space_single (tables : Tables userOnly roots k) (created : vmmCreateAddressSpace k = .ok (r * pageSize, k₁))
    (low : virt < userVirtMax) (aligned : virt % pageSize = 0) (alignedPhys : phys % pageSize = 0)
    (user : userOnly → anyBit flags vmmFlagUser)
    (ran : vmmMapPageIn (r * pageSize) virt phys flags k₁ = .ok (true, k₂)) :
    (∀ t, IsTable (planted roots r) k₂ t → k₁.pmm.used t = false ∨ IsTable roots k t ∨ t = r) ∧
      ∀ vp < userPages, ∀ entry, k₂.space r vp = some entry → vp = virt / pageSize ∧ entry = pageEntry phys flags := by
  obtain ⟨tables₁, held, -, empty⟩ := tables.create created
  obtain ⟨-, mapped⟩ := vmmMapPageIn_mapped tables₁ (.inr rfl) low aligned alignedPhys user ran
  constructor
  · intro t isTable
    rcases mapped.fresh t isTable with old | free
    · exact .inr (held t old)
    · exact .inl free
  · intro vp inside entry found
    by_cases same : vp = virt / pageSize
    · rw [same, mapped.here] at found
      cases found
      exact ⟨same, rfl⟩
    · rw [mapped.elsewhere r vp (.inr rfl) inside (fun both => same both.2), empty vp inside] at found
      cases found

/-! ## Address spaces as they are built -/

/-- The address spaces `roots` have been made and filled since the state `k₀`, all of their pages for users if
    `userOnly` says so. Pages have been allocated and written to on the way. -/
inductive Built (k₀ : Machine) (userOnly : Prop) : (Nat → Prop) → Machine → Prop where
  | start : Built k₀ userOnly (fun _ => False) k₀
  | create {roots : Nat → Prop} {k k' : Machine} {cr3Phys : Nat} :
      Built k₀ userOnly roots k → vmmCreateAddressSpace k = .ok (cr3Phys, k') →
        Built k₀ userOnly (planted roots (cr3Phys / pageSize)) k'
  | map {roots : Nat → Prop} {k k' : Machine} {r virt phys flags : Nat} :
      Built k₀ userOnly roots k → roots r → virt < userVirtMax → (userOnly → anyBit flags vmmFlagUser) →
        vmmMapPageIn (r * pageSize) virt phys flags k = .ok (true, k') → Built k₀ userOnly roots k'
  | alloc {roots : Nat → Prop} {k k' : Machine} {phys : Nat} :
      Built k₀ userOnly roots k → pmmAllocPage k = .ok (phys, k') → Built k₀ userOnly roots k'
  /-- A page that is no table, and was not in use at first, gets other contents. -/
  | store {roots : Nat → Prop} {k k' : Machine} {page : Nat} :
      Built k₀ userOnly roots k → ¬ IsTable roots k page → k₀.pmm.used page = false → Machine.OnlyPage page k k' →
        Built k₀ userOnly roots k'
  | switch {roots : Nat → Prop} {k : Machine} {cr3Phys : Nat} :
      Built k₀ userOnly roots k → Built k₀ userOnly roots (vmmSwitchAddressSpace cr3Phys k)

/-- What has become of the state `k₀` while address spaces were built. -/
structure Since (k₀ : Machine) (userOnly : Prop) (roots : Nat → Prop) (k : Machine) : Prop where
  tables : Tables userOnly roots k
  used : ∀ page, k₀.pmm.used page → k.pmm.used page
  kept : ∀ page, k₀.pmm.used page → k.mem page = k₀.mem page
  fresh : ∀ page, IsTable roots k page → k₀.pmm.used page = false
  upper : k₀.pmm.used k₀.root → ∀ r i, roots r → 256 ≤ i → i < 512 → k.mem r i = k₀.mem k₀.root i
  kernelCr3 : k.kernelCr3 = k₀.kernelCr3

namespace Since

theorem start : Since k₀ userOnly (fun _ => False) k₀ where
  tables :=
    { forest := ⟨fun _ _ _ at_ => at_.1.elim, fun _ _ _ _ _ at_ => at_.1.elim⟩
      owned := by
        rintro t ⟨r, p, at_, -⟩
        exact at_.1.elim
      opened := fun _ _ _ _ at_ => at_.1.elim }
  used _ isUsed := isUsed
  kept _ _ := rfl
  fresh := by
    rintro t ⟨r, p, at_, -⟩
    exact at_.1.elim
  upper _ _ _ root := root.elim
  kernelCr3 := rfl

variable (since : Since k₀ userOnly roots k)

include since

theorem outside (isUsed : k₀.pmm.used page) : ¬ IsTable roots k page := by
  intro held
  rw [since.fresh page held] at isUsed
  cases isUsed

theorem not_used (free : k.pmm.used page = false) : k₀.pmm.used page = false := by
  rw [← Bool.not_eq_true]
  intro isUsed
  rw [since.used page isUsed] at free
  cases free

theorem rebuilt (change : Rebuilt userOnly roots k k') : Since k₀ userOnly roots k' where
  tables := change.tables
  used page isUsed := change.used page (since.used page isUsed)
  kept page isUsed :=
    (change.foreign page (since.used page isUsed) (since.outside isUsed)).trans (since.kept page isUsed)
  fresh page held := by
    rcases change.fresh page held with old | free
    · exact since.fresh page old
    · exact since.not_used free
  upper rootUsed r i root high inside := (change.upper r i root high).trans (since.upper rootUsed r i root high inside)
  kernelCr3 := change.kernelCr3.trans since.kernelCr3

/-- A step that leaves the tables, and the pages in use at first, alone. -/
theorem keep (mem : ∀ t, IsTable roots k t → k'.mem t = k.mem t)
    (used : ∀ t, k.pmm.used t → k'.pmm.used t) (size : k'.pmm.maxPageIndex = k.pmm.maxPageIndex)
    (kept : ∀ page, k₀.pmm.used page → k'.mem page = k.mem page)
    (kernelCr3 : k'.kernelCr3 = k.kernelCr3) : Since k₀ userOnly roots k' := by
  obtain ⟨tables, sameTables, -⟩ := since.tables.keep mem (fun t held => used t (since.tables.owned t held).1) size
  refine ⟨tables, ?_, ?_, ?_, ?_, kernelCr3.trans since.kernelCr3⟩
  · exact fun page isUsed => used page (since.used page isUsed)
  · exact fun page isUsed => (kept page isUsed).trans (since.kept page isUsed)
  · exact fun page held => since.fresh page ((sameTables page).mp held)
  · intro rootUsed r i root high inside
    rw [mem r ⟨r, [], tablePlace_nil root, rfl⟩]
    exact since.upper rootUsed r i root high inside

theorem create (ran : vmmCreateAddressSpace k = .ok (cr3Phys, k')) :
    Since k₀ userOnly (planted roots (cr3Phys / pageSize)) k' := by
  obtain ⟨page, inside, free, rfl, rfl⟩ := vmmCreateAddressSpace_ok ran
  rw [Nat.mul_div_cancel page (by decide)]
  have wasFree := since.not_used free
  have others (b : Nat) (other : b ≠ page) := k.fillPml4_other inside other
  have apart {b : Nat} (isUsed : k₀.pmm.used b) : b ≠ page := Pmm.ne_of_used isUsed wasFree
  obtain ⟨tables, held, -, -⟩ := since.tables.create ran
  refine ⟨tables, ?_, ?_, ?_, ?_, since.kernelCr3⟩
  · exact fun b isUsed => pmm_take_used inside (since.used b isUsed)
  · exact fun b isUsed => (others b (apart isUsed)).trans (since.kept b isUsed)
  · intro t isHeld
    rcases held t isHeld with old | rfl
    · exact since.fresh t old
    · exact wasFree
  · intro rootUsed r i root high low
    rcases root with old | rfl
    · have other : r ≠ page := by
        rintro rfl
        exact since.tables.free_outside free ⟨r, [], tablePlace_nil old, rfl⟩
      rw [others r other]
      exact since.upper rootUsed r i old high low
    · have kernel : k.kernelCr3 / pageSize = k₀.root := by rw [since.kernelCr3]; rfl
      have word : ((k.takePage r inside).fillPml4 r).mem r i = k.mem k₀.root i := by
        have notLow : ¬ i < 256 := Nat.not_lt.mpr high
        have other : k₀.root ≠ r := apart rootUsed
        simp [Machine.fillPml4, Machine.takePage, Machine.zeroPage, notLow, low, kernel, other]
      rw [word, since.kept k₀.root rootUsed]

end Since

theorem Built.since (built : Built k₀ userOnly roots k) : Since k₀ userOnly roots k := by
  induction built with
  | start => exact Since.start
  | create _ ran since => exact since.create ran
  | map _ root low user ran since =>
    rename_i virt phys flags _
    have aligned : virt % pageSize = 0 ∧ phys % pageSize = 0 := by
      unfold vmmMapPageIn at ran
      split at ran
      · cases ran
      · rename_i both
        simpa using both
    exact since.rebuilt (vmmMapPageIn_mapped since.tables root low aligned.1 aligned.2 user ran).2.toRebuilt
  | alloc _ ran since =>
    obtain ⟨page, inside, free, rfl, rfl⟩ := pmmAllocPage_ok ran
    have other {k : Machine} {inside : page < k.pmm.maxPageIndex} (b : Nat) (differs : b ≠ page) :
        (k.takePage page inside).mem b = k.mem b := by
      simp [Machine.takePage, Machine.zeroPage, differs]
    refine since.keep ?_ (fun t isUsed => pmm_take_used inside isUsed) rfl ?_ rfl
    · rintro t held
      apply other
      rintro rfl
      exact since.tables.free_outside free held
    · exact fun t isUsed => other t (Pmm.ne_of_used isUsed (since.not_used free))
  | store _ noTable wasFree only since =>
    refine since.keep ?_ ?_ ?_ ?_ only.kernelCr3
    · intro t held
      apply only.mem
      rintro rfl
      exact noTable held
    · intro t isUsed
      rwa [only.pmm]
    · rw [only.pmm]
    · exact fun t isUsed => only.mem t (Pmm.ne_of_used isUsed wasFree)
  | switch _ since =>
    have same {k : Machine} {cr3Phys : Nat} : (vmmSwitchAddressSpace cr3Phys k).mem = k.mem ∧
        (vmmSwitchAddressSpace cr3Phys k).pmm = k.pmm ∧
          (vmmSwitchAddressSpace cr3Phys k).kernelCr3 = k.kernelCr3 := by
      unfold vmmSwitchAddressSpace
      split <;> exact ⟨rfl, rfl, rfl⟩
    refine since.keep ?_ ?_ ?_ ?_ same.2.2
    · intro t _
      rw [same.1]
    · intro t isUsed
      rwa [same.2.1]
    · rw [same.2.1]
    · intro t _
      rw [same.1]

/-! ## One page -/

/-- A combination of the `VMM_FLAG_*` constants. -/
def IsVmmFlags (flags : Nat) : Prop :=
  flags &&& (vmmFlagWritable ||| vmmFlagUser ||| vmmFlagWriteCombining ||| vmmFlagUncached ||| vmmFlagNoExec) = flags

instance : DecidablePred IsVmmFlags := fun _ => inferInstanceAs (Decidable (_ = _))

/-- Only the two caching bits are changed on the way into an entry. -/
theorem pteFlags_and (noPwt : ptePwt &&& mask = 0) (noPcd : ptePcd &&& mask = 0)
    (wide : u64Max &&& mask = mask) : pteFlags flags &&& mask = flags &&& mask := by
  have clear {bit : Nat} (apart : bit &&& mask = 0) (inside : (u64Max - bit) ||| bit = u64Max) :
      (u64Max - bit) &&& mask = mask := by
    calc (u64Max - bit) &&& mask = ((u64Max - bit) &&& mask) ||| (bit &&& mask) := by rw [apart, Nat.or_zero]
      _ = mask := by rw [← Nat.and_or_distrib_right, inside, wide]
  have withoutPwt := clear noPwt (by decide)
  have withoutPcd := clear noPcd (by decide)
  have combining : vmmFlagWriteCombining = ptePwt := rfl
  have uncached : vmmFlagUncached = ptePcd := rfl
  simp only [pteFlags, combining, uncached]
  split <;> split <;>
    simp [Nat.and_or_distrib_right, Nat.and_assoc, withoutPwt, withoutPcd, noPwt, noPcd]

theorem anyBit_pageEntry (address : pteAddrMask &&& bit = 0)
    (noPresent : ptePresent &&& bit = 0) (noPwt : ptePwt &&& bit = 0) (noPcd : ptePcd &&& bit = 0)
    (wide : u64Max &&& bit = bit) : anyBit (pageEntry phys flags) bit = anyBit flags bit := by
  have word : pageEntry phys flags &&& bit = flags &&& bit := by
    rw [pageEntry, Nat.and_or_distrib_right, Nat.and_or_distrib_right, Nat.and_assoc, address, Nat.and_zero,
      Nat.zero_or, noPresent, Nat.or_zero, pteFlags_and noPwt noPcd wide]
  rw [anyBit, anyBit, word]

/-- The entry points to the page given to `vmm_map_page_in`. -/
theorem entryPage_pageEntry (aligned : phys % pageSize = 0) (small : phys < 2 ^ 52)
    (combination : IsVmmFlags flags) : entryPage (pageEntry phys flags) * pageSize = phys := by
  have exact_ := Nat.div_mul_cancel (Nat.dvd_of_mod_eq_zero aligned)
  have inside : phys / pageSize < 2 ^ 40 := by
    unfold pageSize
    omega
  have none_ : flags &&& pteAddrMask = 0 := by
    rw [← combination, Nat.and_assoc]
    exact Nat.and_zero flags
  have plain : (pteFlags flags ||| ptePresent) &&& pteAddrMask = 0 := by
    have present : ptePresent &&& pteAddrMask = 0 := by decide
    rw [Nat.and_or_distrib_right, pteFlags_and (by decide) (by decide) (by decide), none_, present,
      Nat.or_zero]
  have target := entryPage_or inside plain
  rw [exact_] at target
  have masked : phys &&& pteAddrMask = phys := by
    have whole := mask_mul inside
    rwa [exact_] at whole
  rw [pageEntry, masked, Nat.or_assoc, target, exact_]

def InUse (k : Machine) (cr3Phys : Nat) : Prop := ∀ t, LowerTable cr3Phys k t → k.pmm.used t

/-- Mapping changes nothing in an address space with its tables elsewhere. -/
theorem Rebuilt.translate_elsewhere
    (change : Rebuilt userOnly roots k k') (since : Since k₀ userOnly roots k)
    (inUse : InUse k₀ cr3Phys) :
    vmmTranslateUserAddr cr3Phys virt write k' = vmmTranslateUserAddr cr3Phys virt write k := by
  have before : SameTables cr3Phys k₀ k := fun t table => since.kept t (inUse t table)
  have after : SameTables cr3Phys k₀ k' := fun t table => (since.rebuilt change).kept t (inUse t table)
  rw [after.translate, before.translate]

/-- Mapping one page changes the translation of its addresses, in one address space, and of no others. -/
theorem vmmMapPageIn_one_page {k₀ k k' : Machine} {roots : Nat → Prop} {r virt phys flags : Nat} {done : Bool}
    (built : Built k₀ True roots k) (root : roots r) (low : virt < userVirtMax) (aligned : virt % pageSize = 0)
    (alignedPhys : phys % pageSize = 0) (small : phys < 2 ^ 52) (combination : IsVmmFlags flags)
    (user : anyBit flags vmmFlagUser = true)
    (ran : vmmMapPageIn (r * pageSize) virt phys flags k = .ok (done, k')) :
    (∀ offset < pageSize, ∀ write, vmmTranslateUserAddr (r * pageSize) (virt + offset) write k' =
      if write = false ∨ anyBit flags vmmFlagWritable = true then some (phys + offset) else none) ∧
    (∀ addr write, ¬ (virt ≤ addr ∧ addr < virt + pageSize) →
      vmmTranslateUserAddr (r * pageSize) addr write k' = vmmTranslateUserAddr (r * pageSize) addr write k) ∧
    (∀ r' addr write, roots r' → r' ≠ r →
      vmmTranslateUserAddr (r' * pageSize) addr write k' = vmmTranslateUserAddr (r' * pageSize) addr write k) ∧
    ∀ cr3Phys addr write, InUse k₀ cr3Phys →
      vmmTranslateUserAddr cr3Phys addr write k' = vmmTranslateUserAddr cr3Phys addr write k := by
  have since := built.since
  obtain ⟨-, mapped⟩ := vmmMapPageIn_mapped since.tables root low aligned alignedPhys (fun _ => user) ran
  -- an address that is not in the page, or not in the address space
  have elsewhere (r' addr : Nat) (write : Bool) (root' : roots r')
      (other : ¬ (r' = r ∧ addr / pageSize = virt / pageSize)) :
      vmmTranslateUserAddr (r' * pageSize) addr write k' = vmmTranslateUserAddr (r' * pageSize) addr write k := by
    by_cases beyond : userVirtMax ≤ addr
    · rw [vmmTranslateUserAddr, if_pos beyond, vmmTranslateUserAddr, if_pos beyond]
    · have below := Nat.not_le.mp beyond
      rw [mapped.tables.vmmTranslateUserAddr_space root' below, since.tables.vmmTranslateUserAddr_space root' below,
        mapped.elsewhere r' (addr / pageSize) root' (page_lt below) other]
  refine ⟨?_, ?_, ?_, ?_⟩
  · intro offset inside write
    have samePage : (virt + offset) / pageSize = virt / pageSize := by
      unfold pageSize at *
      omega
    have place : (virt + offset) % pageSize = offset := by
      unfold pageSize at *
      omega
    have below : virt + offset < userVirtMax := by
      unfold userVirtMax pageSize at *
      omega
    have isUser : anyBit (pageEntry phys flags) pteUser :=
      (anyBit_pageEntry (by decide) (by decide) (by decide) (by decide) (by decide)).trans user
    have isWritable : anyBit (pageEntry phys flags) pteWritable = anyBit flags vmmFlagWritable :=
      anyBit_pageEntry (by decide) (by decide) (by decide) (by decide) (by decide)
    rw [mapped.tables.vmmTranslateUserAddr_space root below, samePage, mapped.here, Option.bind_some, place,
      entryPage_pageEntry alignedPhys small combination, permits, isUser, isWritable]
    cases write <;> simp
  · intro addr write outside
    apply elsewhere r addr write root
    rintro ⟨-, samePage⟩
    unfold pageSize at *
    omega
  · intro r' addr write root' differs
    exact elsewhere r' addr write root' fun both => differs both.1
  · intro cr3Phys addr write inUse
    exact mapped.toRebuilt.translate_elsewhere since inUse

/-- The first of two address spaces gets a writable page: the second, and the next page of the first, stay without. -/
theorem vmmMapPageIn_one_page_first : ∃ k k',
    vmmMapPageIn 0x1000 0x400000 0x8000 (vmmFlagUser ||| vmmFlagWritable) k = .ok (true, k') ∧
    vmmTranslateUserAddr 0x1000 0x400123 true k' = some 0x8123 ∧
    vmmTranslateUserAddr 0x1000 0x401123 false k' = none ∧ vmmTranslateUserAddr 0x2000 0x400123 false k' = none := by
  have first : Built (memoryInit smallMemmap blankMachine) True (planted (fun _ => False) (0x1000 / pageSize)) _ :=
    .create .start rfl
  obtain ⟨k, k', built, ran, next, other⟩ : ∃ k k', Built (memoryInit smallMemmap blankMachine) True
      (planted (planted (fun _ => False) (0x1000 / pageSize)) (0x2000 / pageSize)) k ∧
      vmmMapPageIn (1 * pageSize) 0x400000 0x8000 (vmmFlagUser ||| vmmFlagWritable) k = .ok (true, k') ∧
      vmmTranslateUserAddr (1 * pageSize) 0x401123 false k = none ∧
      vmmTranslateUserAddr (2 * pageSize) 0x400123 false k = none := ⟨_, _, first.create rfl, rfl, rfl, rfl⟩
  have one := vmmMapPageIn_one_page built (.inl (.inr rfl)) (by decide) (by decide) (by decide) (by decide)
    (by decide) (by decide) ran
  refine ⟨k, k', ran, ?_, ?_, ?_⟩
  · exact one.1 0x123 (by decide) true
  · exact (one.2.1 0x401123 false (by decide)).trans next
  · exact (one.2.2.1 2 0x400123 false (.inr rfl) (by decide)).trans other

end TangPingOS
