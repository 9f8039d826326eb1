import TangPingOS.Memory.PageTables

/-! # Giving an address space back

`vmm_destroy_user_address_space` walks the lower half of an address space and frees what
it finds, children before their tables. The pages it frees are exactly those of the
address space, each of them once, and it writes to no other page.
-/

namespace TangPingOS

open Lib

/-- Only pages of `written` have changed, and of the used pages those of `freed` are free now. The count of free pages
    has kept up if they were all in use. -/
structure Frees (written freed : List Nat) (k k' : Machine) : Prop where
  mem : ∀ page, page ∉ written → k'.mem page = k.mem page
  used : ∀ page, k'.pmm.used page = (k.pmm.used page && decide (page ∉ freed))
  counted : freed.Nodup → (∀ page ∈ freed, k.pmm.used page) →
    k'.pmm.freePageCount ≡ k.pmm.freePageCount + freed.length [MOD 2 ^ 64]
  size : k'.pmm.maxPageIndex = k.pmm.maxPageIndex
  cr3 : k'.cr3 = k.cr3
  kernelCr3 : k'.kernelCr3 = k.kernelCr3
  heap : k'.heap = k.heap

namespace Frees

variable {w w' f f' : List Nat} {k k' k'' : Machine}

theorem refl (w : List Nat) (k : Machine) : Frees w [] k k :=
  ⟨fun _ _ => rfl, by simp, fun _ _ => Nat.ModEq.refl _, rfl, rfl, rfl, rfl⟩

theorem trans (first : Frees w f k k') (second : Frees w' f' k' k'') : Frees (w ++ w') (f ++ f') k k'' where
  mem page outside := by
    rw [List.mem_append, not_or] at outside
    rw [second.mem page outside.2, first.mem page outside.1]
  used page := by
    rw [second.used, first.used, Bool.and_assoc]
    simp
  counted nodup isUsed := by
    obtain ⟨nodup₁, nodup₂, disjoint⟩ := List.nodup_append.mp nodup
    have one := first.counted nodup₁ fun page member => isUsed page (List.mem_append_left _ member)
    have two := second.counted nodup₂ fun page member => by
      have before := isUsed page (List.mem_append_right _ member)
      have outside : page ∉ f := fun there => disjoint page there page member rfl
      rw [first.used, before, decide_eq_true outside, Bool.true_and]
    rw [List.length_append, ← Nat.add_assoc]
    exact two.trans (one.add_right _)
  size := second.size.trans first.size
  cr3 := second.cr3.trans first.cr3
  kernelCr3 := second.kernelCr3.trans first.kernelCr3
  heap := second.heap.trans first.heap

theorem mono (frees : Frees w f k k') (more : ∀ page ∈ w, page ∈ w') : Frees w' f k k' :=
  { frees with mem := fun page outside => frees.mem page fun inside => outside (more page inside) }

theorem setWord (k : Machine) (page index value : Nat) : Frees [page] [] k (k.setWord page index value) where
  mem other outside := k.onlyPage_setWord.mem other (by simpa using outside)
  used := by simp
  counted _ _ := Nat.ModEq.refl _
  size := rfl
  cr3 := rfl
  kernelCr3 := rfl
  heap := rfl

theorem release (k : Machine) (page : Nat) : Frees [] [page] k { k with pmm := k.pmm.release page } where
  mem _ _ := rfl
  used other := by
    by_cases same : other = page <;> simp [Pmm.release, same]
  counted _ isUsed := by
    have here := isUsed page List.mem_cons_self
    simp only [Pmm.release, here]
    exact Nat.mod_modEq _ _
  size := rfl
  cr3 := rfl
  kernelCr3 := rfl
  heap := rfl

end Frees

/-! ## Tables and what is below them -/

/-- The pages of a table at level `n`, a mapped page being at level 0. -/
abbrev tablePages (k : Machine) (n page : Nat) : List Nat := nodes (links k.mem) 512 n page

/-- No entry of the tables above the last level is for a huge page. -/
def Tame (mem : Nat → Nat → Nat) : Nat → Nat → Prop
  | 0, _ => True
  | n + 1, t => ∀ i < 512, ∀ c, links mem t i = some c →
      (n ≠ 0 → anyBit (mem t i) pteHuge = false) ∧ Tame mem n c

theorem Tame.congr (tame : Tame mem n t)
    (same : ∀ b ∈ nodes (links mem) 512 n t, mem' b = mem b) : Tame mem' n t := by
  induction n generalizing t with
  | zero => trivial
  | succ n ih =>
    intro i low c link
    rw [nodes_succ] at same
    have here : mem' t = mem t := same t (List.mem_append_right _ List.mem_cons_self)
    rw [links_congr (congrFun here i)] at link
    obtain ⟨small, below⟩ := tame i low c link
    refine ⟨by rw [here]; exact small, ih below fun b member => same b ?_⟩
    exact List.mem_append_left _ (mem_childCells.mpr ⟨i, c, Nat.zero_le i, by omega, link, member⟩)

/-- The pages of a table can be given back. -/
structure Ready (k : Machine) (n page : Nat) : Prop where
  nodup : (tablePages k n page).Nodup
  inside : ∀ b ∈ tablePages k n page, b < k.pmm.maxPageIndex
  tame : Tame k.mem n page

/-- What a function that gives back tables at level `n` has to do. -/
def FreesLevel (n : Nat) (freeChild : Nat → Machine → Except Panic (Nat × Machine)) : Prop :=
  ∀ page k, Ready k n page → ∃ k', freeChild (page * pageSize) k = .ok ((tablePages k n page).length, k') ∧
    Frees (tablePages k n page) (tablePages k n page) k k'

section Levels

variable {freeChild : Nat → Machine → Except Panic (Nat × Machine)} {huge : Option Panic}
  {n t index left page : Nat} {k : Machine}

/-- The entries of a table that can be given back. -/
structure ReadyEntries (k : Machine) (n t index left : Nat) : Prop where
  apart : t ∉ childCells (links k.mem) 512 n t index left
  nodup : (childCells (links k.mem) 512 n t index left).Nodup
  inside : ∀ b ∈ childCells (links k.mem) 512 n t index left, b < k.pmm.maxPageIndex
  tame : ∀ i, index ≤ i → i < index + left → ∀ c, links k.mem t i = some c →
    (n ≠ 0 → anyBit (k.mem t i) pteHuge = false) ∧ Tame k.mem n c

/-- After the first entry has been dealt with, the others are as they were. -/
theorem ReadyEntries.rest (ready : ReadyEntries k n t index (left + 1))
    (words : ∀ i, index < i → k'.mem t i = k.mem t i)
    (pages : ∀ b ∈ childCells (links k.mem) 512 n t (index + 1) left, k'.mem b = k.mem b)
    (size : k'.pmm.maxPageIndex = k.pmm.maxPageIndex) :
    childCells (links k'.mem) 512 n t (index + 1) left
        = childCells (links k.mem) 512 n t (index + 1) left ∧
      ReadyEntries k' n t (index + 1) left := by
  have below {i c b : Nat} (low : index + 1 ≤ i) (high : i < index + 1 + left)
      (link : links k.mem t i = some c) (member : b ∈ tablePages k n c) : k'.mem b = k.mem b :=
    pages b (mem_childCells.mpr ⟨i, c, low, high, link, member⟩)
  have same : childCells (links k'.mem) 512 n t (index + 1) left
      = childCells (links k.mem) 512 n t (index + 1) left := by
    apply childCells_congr
    · intro i low _
      exact links_congr (words i low)
    · intro i c low high link
      apply nodes_congr
      intro b member j _
      exact links_congr (congrFun (below low high link member) j)
  obtain ⟨apart, nodup, inside, tame⟩ := ready
  refine ⟨same, ?_, ?_, ?_, ?_⟩
  · rw [same]
    exact fun member => apart (List.mem_append_right _ member)
  · rw [same]
    exact (List.nodup_append.mp nodup).2.1
  · rw [same, size]
    exact fun b member => inside b (List.mem_append_right _ member)
  · intro i low high c link
    rw [links_congr (words i low)] at link
    obtain ⟨small, tameC⟩ := tame i (by omega) (by omega) c link
    refine ⟨by rw [words i low]; exact small, tameC.congr fun b member => below low high link member⟩

theorem freeEntries_spec (freed : Nat) (level : FreesLevel n freeChild) (checked : huge = none ∨ n ≠ 0)
    (ready : ReadyEntries k n t index left) :
    ∃ k', freeEntries freeChild huge t index left freed k
        = .ok (freed + (childCells (links k.mem) 512 n t index left).length, k') ∧
      Frees (t :: childCells (links k.mem) 512 n t index left)
        (childCells (links k.mem) 512 n t index left) k k' ∧ ∀ i, index + left ≤ i → k'.mem t i = k.mem t i := by
  induction left generalizing index freed k with
  | zero => exact ⟨k, rfl, Frees.refl _ k, fun _ _ => rfl⟩
  | succ left ih =>
    unfold freeEntries
    rw [childCells_succ]
    cases link : links k.mem t index with
    | none =>
      obtain ⟨same, rest⟩ := ready.rest (fun _ _ => rfl) (fun _ _ => rfl) rfl
      have absent := links_eq_none.mp link
      simp only [absent]
      obtain ⟨k', ran, frees, above⟩ := ih freed rest
      exact ⟨k', ran, frees, fun i high => above i (by omega)⟩
    | some c =>
      obtain ⟨present, target⟩ := links_eq_some.mp link
      obtain ⟨small, tame⟩ := ready.tame index le_rfl (by omega) c link
      have apart := ready.apart
      have nodup := ready.nodup
      have inside := ready.inside
      rw [childCells_succ, link] at apart nodup inside
      obtain ⟨nodupC, -, disjoint⟩ := List.nodup_append.mp nodup
      -- The first child, then its entry, then the other entries.
      obtain ⟨k₁, ran, first⟩ := level c k
        ⟨nodupC, fun b member => inside b (List.mem_append_left _ member), tame⟩
      have second := Frees.setWord k₁ t index 0
      have words : ∀ i, index < i → (k₁.setWord t index 0).mem t i = k.mem t i := by
        intro i above
        rw [k₁.setWord_mem_other (by omega),
          first.mem t fun member => apart (List.mem_append_left _ member)]
      have pages : ∀ b ∈ childCells (links k.mem) 512 n t (index + 1) left,
          (k₁.setWord t index 0).mem b = k.mem b := by
        intro b member
        have other : b ≠ t := by
          rintro rfl
          exact apart (List.mem_append_right _ member)
        rw [second.mem b (by simpa using other)]
        exact first.mem b fun inC => disjoint b inC b member rfl
      obtain ⟨same, rest⟩ := ready.rest words pages first.size
      obtain ⟨k₂, finished, third, above⟩ := ih (freed + (tablePages k n c).length) rest
      refine ⟨k₂, ?_, ?_, fun i high => (above i (by omega)).trans (words i (by omega))⟩
      · have child : freeChild (k.mem t index &&& pteAddrMask) k
            = .ok ((tablePages k n c).length, k₁) := by
          rw [mask_eq, target, ran]
        rw [List.length_append, ← Nat.add_assoc, ← same]
        rcases checked with rfl | upper
        · simp only [present, child]
          exact finished
        · simp only [present, small upper, child]
          cases huge <;> exact finished
      · rw [same] at third
        have whole := (first.trans second).trans third
        rw [List.append_nil] at whole
        refine whole.mono fun b member => ?_
        simp only [List.mem_append, List.mem_cons] at member
        rw [List.mem_cons, List.mem_append]
        tauto

theorem freeLeaf_level : FreesLevel 0 freeLeaf := by
  intro page k ready
  have inside := ready.inside page List.mem_cons_self
  refine ⟨_, ?_, (Frees.release k page).mono fun _ none => absurd none List.not_mem_nil⟩
  rw [freeLeaf, pmmFreePage_eq inside]
  rfl

theorem freeTable_level (level : FreesLevel n freeChild) (checked : huge = none ∨ n ≠ 0) :
    FreesLevel (n + 1) (freeTable freeChild huge) := by
  intro page k ready
  obtain ⟨nodup, inside, tame⟩ := ready
  rw [tablePages, nodes_succ] at nodup inside
  obtain ⟨nodupC, -, disjoint⟩ := List.nodup_append.mp nodup
  have here := inside page (List.mem_append_right _ List.mem_cons_self)
  have small := k.pmm.page_small here
  have children : ReadyEntries k n page 0 512 :=
    ⟨fun member => disjoint page member page List.mem_cons_self rfl, nodupC,
      fun b member => inside b (List.mem_append_left _ member), fun i _ high => tame i (by omega)⟩
  obtain ⟨k₁, ran, entries, -⟩ := freeEntries_spec 0 level checked children
  have table := Frees.release k₁ page
  refine ⟨{ k₁ with pmm := k₁.pmm.release page }, ?_, ?_⟩
  · rw [freeTable, entryPage_mul small, ran, mask_mul small, tablePages, nodes_succ, List.length_append,
      Nat.zero_add]
    exact congrArg (fun x => x >>= fun k => pure (_, k)) (pmmFreePage_eq (entries.size ▸ here))
  · rw [tablePages, nodes_succ]
    refine (entries.trans table).mono fun b member => ?_
    simp only [List.append_nil, List.mem_cons] at member
    rw [List.mem_append, List.mem_singleton]
    tauto

theorem vmmFreePdpt_level : FreesLevel 3 vmmFreePdpt :=
  freeTable_level (freeTable_level (freeTable_level freeLeaf_level (.inl rfl)) (.inr (by decide))) (.inr (by decide))

end Levels

section Destroy

variable {top : Nat → Nat} {users : Nat → Prop} {r : Nat} {k : Machine}

/-- The pages of the lower half of an address space, its PML4 last. -/
def spacePages (k : Machine) (r : Nat) : List Nat := childCells (links k.mem) 512 3 r 0 256 ++ [r]

theorem mem_spacePages : page ∈ spacePages k r ↔ UserPage k r page := by
  rw [spacePages, List.mem_append, List.mem_singleton, mem_childCells]
  constructor
  · rintro (⟨i, c, -, low, link, member⟩ | rfl)
    · obtain ⟨p, short, small, found⟩ := mem_nodes.mp member
      refine ⟨i :: p, ⟨by rw [List.length_cons]; omega, List.forall_mem_cons.mpr ⟨by omega, small⟩, ?_⟩, ?_⟩
      · rintro j head
        cases head
        omega
      · rw [walk, link]
        exact found
    · exact ⟨[], by simp [UserPath], rfl⟩
  · rintro ⟨p, ⟨short, small, low⟩, found⟩
    cases p with
    | nil => exact .inr (Option.some.inj found).symm
    | cons i p =>
      obtain ⟨c, link, rest⟩ := Option.bind_eq_some_iff.mp found
      refine .inl ⟨i, c, Nat.zero_le i, by simpa using low i rfl, link, mem_nodes.mpr ⟨p, ?_, ?_, rest⟩⟩
      · rw [List.length_cons] at short
        omega
      · exact fun j inside => small j (List.mem_cons_of_mem i inside)

end Destroy

section Exact

variable {userOnly : Prop} {roots : Nat → Prop} {k₀ k : Machine} {r : Nat}

/-- The pages mapped in an address space have been allocated since the state `k₀`, are no tables, and are mapped
    once. -/
structure OwnLeaves (k₀ : Machine) (roots : Nat → Prop) (k : Machine) (r : Nat) : Prop where
  allocated : ∀ vp < userPages, ∀ entry, k.space r vp = some entry → k₀.pmm.used (entryPage entry) = false ∧
    k.pmm.used (entryPage entry) ∧ entryPage entry < k.pmm.maxPageIndex
  apart : ∀ vp < userPages, ∀ entry, k.space r vp = some entry → ¬ IsTable roots k (entryPage entry)
  once : ∀ vp < userPages, ∀ vp' < userPages, ∀ entry entry', k.space r vp = some entry →
    k.space r vp' = some entry' → entryPage entry = entryPage entry' → vp = vp'

theorem UserPath.exists_page (path : UserPath p) (long : ¬ p.length ≤ 3) :
    ∃ vp < userPages, p = upperPath vp ++ [vp % 512] := by
  obtain ⟨short, small, low⟩ := path
  obtain ⟨a, b, c, d, rfl⟩ : ∃ a b c d, p = [a, b, c, d] := List.length_eq_four.mp (by omega)
  simp only [List.forall_mem_cons] at small
  have lowA : a < 256 := low a rfl
  refine ⟨((a * 512 + b) * 512 + c) * 512 + d, ?_, ?_⟩
  · unfold userPages
    omega
  · simp only [upperPath, List.cons_append, List.nil_append, List.cons.injEq, and_true]
    omega

theorem walk_page : walk (links k.mem) r (upperPath vp ++ [vp % 512]) = (k.space r vp).map entryPage := by
  rw [walk_concat, Machine.space]
  cases walk (links k.mem) r (upperPath vp) with
  | none => rfl
  | some t =>
    simp only [Option.bind_some, links]
    split <;> rfl

/-- A page of an address space: one of its tables, or a page mapped in it. -/
theorem userPage_cases (root : roots r) (path : UserPath p) (found : walk (links k.mem) r p = some b) :
    (TablePlace roots r p ∧ IsTable roots k b) ∨
      ∃ vp < userPages, p = upperPath vp ++ [vp % 512] ∧ ∃ entry, k.space r vp = some entry ∧ entryPage entry = b := by
  by_cases short : p.length ≤ 3
  · exact .inl ⟨⟨root, path, short⟩, r, p, ⟨root, path, short⟩, found⟩
  · obtain ⟨vp, low, rfl⟩ := path.exists_page short
    rw [walk_page] at found
    exact .inr ⟨vp, low, rfl, Option.map_eq_some_iff.mp found⟩

theorem OwnLeaves.unshared (own : OwnLeaves k₀ roots k r) (tables : Tables userOnly roots k) (root : roots r)
    (pathP : UserPath p) (pathQ : UserPath q)
    (foundP : walk (links k.mem) r p = some b) (foundQ : walk (links k.mem) r q = some b) : p = q := by
  rcases userPage_cases root pathP foundP with ⟨atP, tableP⟩ | ⟨vp, low, rfl, entry, mapped, target⟩
  · rcases userPage_cases root pathQ foundQ with ⟨atQ, -⟩ | ⟨vp', low', rfl, entry', mapped', rfl⟩
    · exact (tables.forest.unshared r r p q b atP atQ foundP foundQ).2
    · exact absurd tableP (own.apart vp' low' entry' mapped')
  · rcases userPage_cases root pathQ foundQ with ⟨-, tableQ⟩ | ⟨vp', low', rfl, entry', mapped', target'⟩
    · rw [← target] at tableQ
      exact absurd tableQ (own.apart vp low entry mapped)
    · rw [own.once vp low vp' low' entry entry' mapped mapped' (target.trans target'.symm)]

theorem OwnLeaves.mem_spacePages (own : OwnLeaves k₀ roots k r) (since : Since k₀ userOnly roots k) (root : roots r)
    (member : page ∈ spacePages k r) :
    k₀.pmm.used page = false ∧ k.pmm.used page ∧ page < k.pmm.maxPageIndex := by
  obtain ⟨p, path, found⟩ := TangPingOS.mem_spacePages.mp member
  rcases userPage_cases root path found with ⟨-, table⟩ | ⟨vp, low, -, entry, mapped, rfl⟩
  · obtain ⟨isUsed, inside⟩ := since.tables.owned page table
    exact ⟨since.fresh page table, isUsed, inside⟩
  · exact own.allocated vp low entry mapped

theorem OwnLeaves.nodup (own : OwnLeaves k₀ roots k r) (tables : Tables userOnly roots k) (root : roots r) :
    (spacePages k r).Nodup := by
  have path {i : Nat} {p : List Nat} (low : i < 256) (short : p.length ≤ 3) (small : ∀ j ∈ p, j < 512) :
      UserPath (i :: p) := by
    refine ⟨by rw [List.length_cons]; omega, List.forall_mem_cons.mpr ⟨by omega, small⟩, ?_⟩
    rintro j head
    cases head
    exact low
  have step {i c : Nat} {p : List Nat} (link : links k.mem r i = some c) :
      walk (links k.mem) r (i :: p) = walk (links k.mem) c p := by rw [walk, link, Option.bind_some]
  rw [spacePages, List.nodup_append]
  refine ⟨childCells_nodup ?_ ?_, List.nodup_singleton r, ?_⟩
  · intro i c _ low link
    apply nodes_nodup
    intro p q b shortP smallP shortQ smallQ foundP foundQ
    have same := own.unshared tables root (path (by omega) shortP smallP) (path (by omega) shortQ smallQ)
      ((step link).trans foundP) ((step link).trans foundQ)
    exact List.tail_eq_of_cons_eq same
  · intro i j c d b _ lowI _ lowJ linkI linkJ memberI memberJ
    obtain ⟨p, shortP, smallP, foundP⟩ := mem_nodes.mp memberI
    obtain ⟨q, shortQ, smallQ, foundQ⟩ := mem_nodes.mp memberJ
    have same := own.unshared tables root (path (by omega) shortP smallP) (path (by omega) shortQ smallQ)
      ((step linkI).trans foundP) ((step linkJ).trans foundQ)
    exact List.head_eq_of_cons_eq same
  · rintro b memberB r' memberR rfl
    cases List.mem_singleton.mp memberR
    obtain ⟨i, c, -, low, link, member⟩ := mem_childCells.mp memberB
    obtain ⟨p, short, small, found⟩ := mem_nodes.mp member
    have same := own.unshared tables root (path (by omega) short small) (tablePlace_nil root).2.1
      ((step link).trans found) rfl
    cases same

theorem Tables.tame (tables : Tables userOnly roots k) (at_ : TablePlace roots r p)
    (some_ : p ≠ []) (table : walk (links k.mem) r p = some t) (depth : p.length + n = 4) : Tame k.mem n t := by
  induction n generalizing p t with
  | zero => trivial
  | succ n ih =>
    intro i low c link
    cases n with
    | zero => exact ⟨fun none_ => absurd rfl none_, trivial⟩
    | succ n =>
      have next : TablePlace roots r (p ++ [i]) := by
        refine ⟨at_.1, ⟨?_, ?_, ?_⟩, ?_⟩
        · rw [List.length_append, List.length_singleton]
          omega
        · intro j member
          rcases List.mem_append.mp member with old | new
          · exact at_.2.1.2.1 j old
          · cases List.mem_singleton.mp new
            exact low
        · intro j head
          rw [List.head?_append_of_ne_nil _ some_] at head
          exact at_.2.1.2.2 j head
        · rw [List.length_append, List.length_singleton]
          omega
      obtain ⟨present, -⟩ := links_eq_some.mp link
      refine ⟨fun _ => (tables.opened r p i t next table present).small, ih next (by simp) ?_ ?_⟩
      · rw [walk_concat, table, Option.bind_some, link]
      · rw [List.length_append, List.length_singleton]
        omega

/-! ### The upper half -/

/-- The tables that the tables of the upper half lead to, which may also lead to huge pages. -/
def tableLinks (mem : Nat → Nat → Nat) (t i : Nat) : Option Nat :=
  if anyBit (mem t i) pteHuge then none else links mem t i

def UpperTable (k : Machine) (r t : Nat) : Prop :=
  ∃ i c p, 256 ≤ i ∧ i < 512 ∧ links k.mem r i = some c ∧ p.length ≤ 2 ∧ (∀ j ∈ p, j < 512) ∧
    walk (tableLinks k.mem) c p = some t

/-- The PML4 of the kernel and the tables reached from its upper half are in use. -/
def KernelInUse (k : Machine) : Prop :=
  k.pmm.used k.root ∧ ∀ t, UpperTable k k.root t → k.pmm.used t

/-- An address space shares the tables of its upper half with the kernel. -/
theorem Since.upperTable (since : Since k₀ userOnly roots k) (kernel : KernelInUse k₀) (root : roots r)
    (upper : UpperTable k r t) : k₀.pmm.used t := by
  obtain ⟨i, c, p, high, low, link, short, small, found⟩ := upper
  have first : links k₀.mem k₀.root i = some c := by
    rw [links, ← since.upper kernel.1 r i root high low]
    exact link
  apply kernel.2
  refine ⟨i, c, p, high, low, first, short, small, ?_⟩
  rw [← found]
  symm
  apply walk_congr
  intro q j b le reached
  have shorter := (List.prefix_append q [j]).trans le
  have isUsed := kernel.2 b ⟨i, c, q, high, low, first, shorter.length_le.trans short,
      fun j member => small j (shorter.subset member), reached⟩
  simp only [tableLinks, links, since.kept b isUsed]

/-- Teardown gives back the pages of the lower half and the PML4, each once, and nothing else. -/
theorem vmmDestroyUserAddressSpace_exact (built : Built k₀ userOnly roots k) (root : roots r)
    (notKernel : r * pageSize ≠ k.kernelCr3) (notCurrent : r * pageSize ≠ vmmCurrentAddressSpace k) (notZero : r ≠ 0)
    (own : OwnLeaves k₀ roots k r) :
    ∃ k', vmmDestroyUserAddressSpace (r * pageSize) k = .ok ((spacePages k r).length, k') ∧
      (spacePages k r).Nodup ∧ (∀ page ∈ spacePages k r, k.pmm.used page = true) ∧
      (∀ page, k'.pmm.used page = (k.pmm.used page && decide (page ∉ spacePages k r))) ∧
      k'.pmm.freePageCount = wrap64 (k.pmm.freePageCount + (spacePages k r).length) ∧
      (∀ i, 256 ≤ i → k'.mem r i = k.mem r i) ∧
      (KernelInUse k₀ → ∀ t, UpperTable k r t → k'.mem t = k.mem t) := by
  have since := built.since
  have nodup := own.nodup since.tables root
  have pages {page : Nat} (member : page ∈ spacePages k r) := own.mem_spacePages since root member
  have small := since.tables.root_lt root
  have inside := (pages (List.mem_append_right _ List.mem_cons_self)).2.2
  have ready : ReadyEntries k 3 r 0 256 := by
    refine ⟨?_, (List.nodup_append.mp nodup).1, ?_, ?_⟩
    · intro member
      exact (List.nodup_append.mp nodup).2.2 r member r List.mem_cons_self rfl
    · exact fun b member => (pages (List.mem_append_left _ member)).2.2
    · intro i _ low c link
      have at_ : TablePlace roots r [i] := by
        refine ⟨root, ⟨by simp, ?_, ?_⟩, by simp⟩
        · intro j member
          cases List.mem_singleton.mp member
          omega
        · intro j head
          cases head
          omega
      have table : walk (links k.mem) r [i] = some c := by
        rw [walk, link]
        rfl
      exact ⟨fun _ => (since.tables.opened r [] i r at_ rfl (links_eq_some.mp link).1).small,
        since.tables.tame at_ (by simp) table rfl⟩
  have unchecked : (none : Option Panic) = none ∨ 3 ≠ 0 := .inl rfl
  obtain ⟨k₁, ran, entries, above⟩ := freeEntries_spec 0 vmmFreePdpt_level unchecked ready
  have whole := entries.trans (Frees.release k₁ r)
  have inside₁ := entries.size ▸ inside
  have freed := pmmFreePage_eq inside₁
  refine ⟨{ k₁ with pmm := k₁.pmm.release r }, ?_, nodup, fun page member => (pages member).2.1, whole.used, ?_, above, ?_⟩
  · have exact_ : r * pageSize / pageSize = r := Nat.mul_div_cancel r (by decide)
    have started : ¬ (r * pageSize = 0 ∨ r * pageSize = k.kernelCr3 ∨ r * pageSize = k.cr3 &&& pteAddrMask) := by
      rintro (zero | kernel | current)
      · rcases Nat.mul_eq_zero.mp zero with same | same
        · exact notZero same
        · cases same
      · exact notKernel kernel
      · exact notCurrent current
    rw [vmmDestroyUserAddressSpace]
    simp only [mask_mul small, if_neg started, exact_, ran, spacePages, List.length_append, List.length_singleton,
      Nat.zero_add]
    exact congrArg (fun x => x >>= fun k => pure (_, k)) freed
  · have counted := whole.counted nodup fun page member => (pages member).2.1
    have isUsed : k₁.pmm.used r := by
      have outside := ready.apart
      rw [entries.used, (pages (List.mem_append_right _ List.mem_cons_self)).2.1, decide_eq_true outside,
        Bool.true_and]
    have last : (k₁.pmm.release r).freePageCount < 2 ^ 64 := by
      simp only [Pmm.release, isUsed]
      exact Nat.mod_lt _ (by decide)
    exact (Nat.mod_eq_of_lt last).symm.trans counted
  · intro kernel t upper
    have isUsed := since.upperTable kernel root upper
    apply whole.mem
    intro member
    have here : t ∈ spacePages k r := by
      simp only [List.append_nil, List.mem_cons] at member
      rw [spacePages, List.mem_append, List.mem_singleton]
      tauto
    rw [(pages here).1] at isUsed
    cases isUsed

end Exact

/-- One page is mapped: it is given back with its three tables and the PML4. -/
theorem vmmDestroyUserAddressSpace_exact_one : ∃ k k',
    Built (memoryInit smallMemmap blankMachine) False (planted (fun _ => False) 2) k ∧
    vmmDestroyUserAddressSpace 0x2000 k = .ok (5, k') ∧ k'.pmm.used 1 = false := by
  have leaf : Built (memoryInit smallMemmap blankMachine) False (fun _ => False) _ := .alloc .start rfl
  obtain ⟨k₁, k₂, k, built, created, taken, ran, kernel, current, used, size, pages⟩ : ∃ k₁ k₂ k,
      Built (memoryInit smallMemmap blankMachine) False (fun _ => False) k₁ ∧
      vmmCreateAddressSpace k₁ = .ok (2 * pageSize, k₂) ∧ k₂.pmm.used 1 ∧
      vmmMapPageIn (2 * pageSize) 0x400000 0x1000 vmmFlagUser k₂ = .ok (true, k) ∧
      k.kernelCr3 = 0 ∧ vmmCurrentAddressSpace k = 0 ∧ k.pmm.used 1 ∧ k.pmm.maxPageIndex = 17 ∧
      spacePages k 2 = [1, 5, 4, 3, 2] :=
    ⟨_, _, _, leaf, rfl, rfl, rfl, rfl, rfl, rfl, rfl, by decide +kernel⟩
  obtain ⟨held, only⟩ := space_single built.since.tables created (by decide) (by decide) (by decide) False.elim ran
  have page : entryPage (pageEntry 0x1000 vmmFlagUser) = 1 := by decide
  have own : OwnLeaves (memoryInit smallMemmap blankMachine) (planted (fun _ => False) 2) k 2 := by
    refine ⟨?_, ?_, ?_⟩
    · intro vp low entry found
      rw [(only vp low entry found).2, page, used, size]
      exact ⟨by decide, rfl, by decide⟩
    · intro vp low entry found isTable
      rw [(only vp low entry found).2] at isTable
      rcases held 1 isTable with free | ⟨_, _, at_, -⟩ | same
      · rw [taken] at free
        cases free
      · exact at_.1
      · cases same
    · intro vp low vp' low' entry entry' found found' _
      rw [(only vp low entry found).1, (only vp' low' entry' found').1]
  have whole : Built (memoryInit smallMemmap blankMachine) False (planted (fun _ => False) 2) k :=
    (built.create created).map (.inr rfl) (by decide) False.elim ran
  obtain ⟨k', destroyed, -, -, freed, -⟩ := vmmDestroyUserAddressSpace_exact whole (.inr rfl)
    (by rw [kernel]; decide) (by rw [current]; decide) (by decide) own
  rw [pages] at destroyed freed
  exact ⟨k, k', whole, destroyed, by rw [freed]; simp⟩

/-- Mapped pages that are not in use are counted as given back, and a PML4 in page 0 is not given back at all. -/
theorem vmmDestroyUserAddressSpace_not_exact :
    (∃ k k', Built (memoryInit smallMemmap blankMachine) True (planted (fun _ => False) 1) k ∧
      (∀ vp < userPages, ∀ vp' < userPages, ∀ entry entry', k.space 1 vp = some entry → k.space 1 vp' = some entry' →
        entryPage entry = entryPage entry' → vp = vp') ∧
      k.kernelCr3 = 0 ∧ vmmCurrentAddressSpace k = 0 ∧
      vmmDestroyUserAddressSpace 0x1000 k = .ok (5, k') ∧ k'.pmm.freePageCount = k.pmm.freePageCount + 4) ∧
    ∃ k, Built (memoryInit [⟨0, 65536, 0⟩] { blankMachine with cr3 := 0x5000 }) True (planted (fun _ => False) 0) k ∧
      k.kernelCr3 = 0x5000 ∧ vmmCurrentAddressSpace k = 0x5000 ∧ vmmDestroyUserAddressSpace 0 k = .ok (0, k) := by
  constructor
  · have first : Built (memoryInit smallMemmap blankMachine) True (fun _ => False) _ := .start
    obtain ⟨k₁, k₂, k, built, created, ran, kernel, current, outcome⟩ : ∃ k₁ k₂ k,
        Built (memoryInit smallMemmap blankMachine) True (fun _ => False) k₁ ∧
        vmmCreateAddressSpace k₁ = .ok (1 * pageSize, k₂) ∧
        vmmMapPageIn (1 * pageSize) 0x400000 0x9000 vmmFlagUser k₂ = .ok (true, k) ∧
        k.kernelCr3 = 0 ∧ vmmCurrentAddressSpace k = 0 ∧
        (vmmDestroyUserAddressSpace 0x1000 k).toOption.map (fun r => (r.1, r.2.pmm.freePageCount))
          = some (5, k.pmm.freePageCount + 4) := ⟨_, _, _, first, rfl, rfl, rfl, rfl, by decide +kernel⟩
    obtain ⟨-, only⟩ :=
      space_single built.since.tables created (by decide) (by decide) (by decide) (fun _ => by decide) ran
    have whole := (built.create created).map (.inr rfl) (by decide) (fun _ => by decide) ran
    obtain ⟨⟨freed, k'⟩, destroyed, counted⟩ := exists_ok outcome
    obtain ⟨rfl, gained⟩ := Prod.mk.inj counted
    refine ⟨k, k', whole, ?_, kernel, current, destroyed, gained⟩
    intro vp low vp' low' entry entry' found found' _
    rw [(only vp low entry found).1, (only vp' low' entry' found').1]
  · have built : Built (memoryInit [⟨0, 65536, 0⟩] { blankMachine with cr3 := 0x5000 }) True
        (planted (fun _ => False) (0 / pageSize)) _ := .create .start rfl
    exact ⟨_, built, rfl, rfl, rfl⟩

end TangPingOS
