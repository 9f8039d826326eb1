import TangPingOS.Memory.Paging

/-! # The page allocator over whole runs

`memory_init` on a memory map and `pmm_alloc_contiguous_pages`, and what holds after
any sequence of allocations and frees: the count of free pages is exact, free pages
are usable memory, and no page is handed out while it is still out. Which runs of pages
`pmm_alloc_contiguous_pages` finds depends on the hint.
-/

namespace TangPingOS

open Lib

variable {k : Machine} {count page start : Nat} {usable : Nat → Prop}

/-- An entry of the boot loader's memory map; type 0 is `LIMINE_MEMMAP_USABLE`. -/
structure MemmapEntry where
  base : Nat
  length : Nat
  type : Nat

namespace Pmm

variable (pmm : Pmm)

/-- `pmm_set_used`. -/
def setUsed (page : Nat) : Pmm :=
  { pmm with
    used := Function.update pmm.used page true
    freePageCount := if pmm.used page then pmm.freePageCount else wrap64 (pmm.freePageCount + u64Max) }

/-- `pmm_set_free`. -/
def setFree (page : Nat) : Pmm :=
  { pmm with
    used := Function.update pmm.used page false
    freePageCount := if pmm.used page then wrap64 (pmm.freePageCount + 1) else pmm.freePageCount }

def blank : Pmm where
  used _ := true
  maxPageIndex := 0
  freePageCount := 0
  nextHint := 0
  bounded := Nat.zero_le _
  hinted := Nat.le_refl _

/-- The loop of `pmm_mark_range_free`, page by page. -/
def markPagesFree (pages : List Nat) : Pmm :=
  pages.foldl (fun pmm page => if page < pmmMaxPages then pmm.setFree page else pmm) pmm

/-- `pmm_mark_range_free`. -/
def markRangeFree (base length : Nat) : Pmm :=
  let start := alignUp base pageSize
  let stop := alignDown (wrap64 (base + length)) pageSize
  pmm.markPagesFree (List.range' (start / pageSize) (stop / pageSize - start / pageSize))

/-- `pmm_max_page_index` after an entry that ends before page `pageEnd`. -/
def raise (pageEnd : Nat) : Pmm :=
  if higher : pmm.maxPageIndex < pageEnd then
    { pmm with
      maxPageIndex := min pageEnd pmmMaxPages
      bounded := Nat.min_le_right _ _
      hinted := by
        have bounded := pmm.bounded
        have hinted := pmm.hinted
        exact Nat.le_min.mpr ⟨by omega, by omega⟩ }
  else pmm

/-- One round of the loop in `memory_init`. -/
def addEntry (entry : MemmapEntry) : Pmm :=
  let raised := pmm.raise (alignUp (wrap64 (entry.base + entry.length)) pageSize / pageSize)
  if entry.type = 0 then raised.markRangeFree entry.base entry.length else raised

end Pmm

/-- `memory_init`, as far as the page allocator and the kernel's address space go. -/
def memoryInit (memmap : List MemmapEntry) (k : Machine) : Machine :=
  { k with
    kernelCr3 := k.cr3 &&& pteAddrMask
    pmm := memmap.foldl Pmm.addEntry .blank }

/-- The search of `pmm_alloc_contiguous_pages` for a run that ends at `limit` or before. A used page at
    distance `i` makes the search go on behind it. -/
def searchRun (used : Nat → Bool) (count limit : Nat) : Nat → Nat → Option Nat
  | 0, _ => none
  | rounds + 1, start =>
    if wrap64 (start + count) ≤ limit then
      match (List.range count).find? fun i => used (start + i) with
      | none => some start
      | some i => searchRun used count limit rounds (start + i + 1)
    else none

def takeRunPages : Nat → Nat → Machine → Machine
  | 0, _, k => k
  | count + 1, start, k =>
    takeRunPages count (start + 1) { k.zeroPage start with pmm := k.pmm.setUsed start }

theorem takeRunPages_maxPageIndex (count start : Nat) (k : Machine) :
    (takeRunPages count start k).pmm.maxPageIndex = k.pmm.maxPageIndex := by
  induction count generalizing start k with
  | zero => rfl
  | succ count ih => exact ih (start + 1) _

def takeRun (k : Machine) (start count : Nat) (inside : start + count ≤ k.pmm.maxPageIndex) : Machine :=
  let taken := takeRunPages count start k
  { taken with
    pmm :=
      { taken.pmm with
        nextHint := start + count
        hinted := by rw [takeRunPages_maxPageIndex]; exact inside } }

/-- `pmm_alloc_contiguous_pages`. The first search starts at the hint, the second ends there. A count
    so large that the range check wraps finds no run, since no free page lies beyond the last one. -/
def pmmAllocContiguousPages (count : Nat) (k : Machine) : Except Panic (Nat × Machine) :=
  if count = 0 then .ok (0, k)
  else
    match (searchRun k.pmm.used count k.pmm.maxPageIndex (2 ^ 64) k.pmm.nextHint).or
        (searchRun k.pmm.used count k.pmm.nextHint (2 ^ 64) 0) with
    | none => .error .outOfContiguousPhysicalPages
    | some start =>
      if inside : start + count ≤ k.pmm.maxPageIndex then
        .ok (start * pageSize, takeRun k start count inside)
      else .error .outOfContiguousPhysicalPages

def UsablePage (memmap : List MemmapEntry) (page : Nat) : Prop :=
  ∃ entry ∈ memmap, entry.type = 0 ∧ entry.base ≤ page * pageSize ∧
    (page + 1) * pageSize ≤ entry.base + entry.length

/-- The clear bits of `pmm_bitmap`. -/
def Pmm.clearPages (pmm : Pmm) : Finset Nat :=
  (Finset.range pmmMaxPages).filter fun page => pmm.used page = false

/-- The count is exact, and free pages are usable. -/
structure PmmOk (usable : Nat → Prop) (pmm : Pmm) : Prop where
  count : pmm.freePageCount = pmm.clearPages.card
  clear : ∀ page, pmm.used page = false → page < pmm.maxPageIndex ∧ usable page

namespace PmmOk

variable {usable : Nat → Prop} {pmm : Pmm}

theorem mem_clearPages : page ∈ pmm.clearPages ↔ page < pmmMaxPages ∧ pmm.used page = false := by
  simp [Pmm.clearPages]

theorem card_le : pmm.clearPages.card ≤ pmmMaxPages := by
  have le := Finset.card_filter_le (Finset.range pmmMaxPages) fun page => pmm.used page = false
  simpa [Pmm.clearPages] using le

theorem clearPages_setUsed : (pmm.setUsed page).clearPages = pmm.clearPages.erase page := by
  ext other
  rw [mem_clearPages, Finset.mem_erase, mem_clearPages]
  by_cases same : other = page
  · simp [same, Pmm.setUsed]
  · simp [same, Pmm.setUsed]

variable (ok : PmmOk usable pmm)

include ok

theorem setUsed (free : pmm.used page = false) : PmmOk usable (pmm.setUsed page) := by
  have member : page ∈ pmm.clearPages := by
    have inside := (ok.clear page free).1
    exact mem_clearPages.mpr ⟨inside.trans_le pmm.bounded, free⟩
  constructor
  · have positive := Finset.card_pos.mpr ⟨page, member⟩
    have small : pmm.clearPages.card ≤ 2 ^ 22 := card_le
    rw [clearPages_setUsed, Finset.card_erase_of_mem member]
    simp only [Pmm.setUsed, free, Bool.false_eq_true, if_false, ok.count, wrap64, u64Max]
    omega
  · intro other clear
    by_cases same : other = page
    · simp [same, Pmm.setUsed] at clear
    · simp only [Pmm.setUsed, Function.update_of_ne same] at clear
      exact ok.clear other clear

theorem setFree (inside : page < pmm.maxPageIndex) (isUsable : usable page) : PmmOk usable (pmm.setFree page) := by
  have more : (pmm.setFree page).clearPages = insert page pmm.clearPages := by
    ext other
    rw [mem_clearPages, Finset.mem_insert, mem_clearPages]
    by_cases same : other = page
    · simp [same, Pmm.setFree, inside.trans_le pmm.bounded]
    · simp [same, Pmm.setFree]
  constructor
  · rw [more]
    cases used : pmm.used page with
    | false =>
      have member := mem_clearPages.mpr ⟨inside.trans_le pmm.bounded, used⟩
      simp [Pmm.setFree, used, ok.count, Finset.insert_eq_of_mem member]
    | true =>
      have outside : page ∉ pmm.clearPages := fun member => by
        have clear := (mem_clearPages.mp member).2
        rw [used] at clear
        cases clear
      have small : pmm.clearPages.card ≤ 2 ^ 22 := card_le
      simp only [Pmm.setFree, used, if_true, ok.count, Finset.card_insert_of_notMem outside, wrap64]
      omega
  · intro other clear
    by_cases same : other = page
    · subst same
      exact ⟨inside, isUsable⟩
    · simp only [Pmm.setFree, Function.update_of_ne same] at clear
      exact ok.clear other clear

theorem hint (hinted : nextHint ≤ pmm.maxPageIndex) :
    PmmOk usable { pmm with nextHint := nextHint, hinted := hinted } :=
  ⟨ok.count, ok.clear⟩

theorem take (inside : page < pmm.maxPageIndex)
    (free : pmm.used page = false) : PmmOk usable (pmm.take page inside) :=
  (ok.setUsed free).hint (Nat.succ_le_of_lt inside)

theorem release (inside : page < pmm.maxPageIndex) (isUsable : usable page) : PmmOk usable (pmm.release page) := by
  have hinted := (pmm.release page).hinted
  exact (ok.setFree inside isUsable).hint hinted

theorem raise (pageEnd : Nat) :
    PmmOk usable (pmm.raise pageEnd) ∧ min pageEnd pmmMaxPages ≤ (pmm.raise pageEnd).maxPageIndex := by
  have bounded := pmm.bounded
  unfold Pmm.raise
  split
  · refine ⟨⟨ok.count, fun page clear => ?_⟩, Nat.le_refl _⟩
    obtain ⟨inside, isUsable⟩ := ok.clear page clear
    exact ⟨Nat.lt_min.mpr ⟨by omega, by omega⟩, isUsable⟩
  · rename_i lower
    exact ⟨ok, (Nat.min_le_left _ _).trans (Nat.not_lt.mp lower)⟩

theorem markPagesFree (inside : ∀ page ∈ pages, page < pmmMaxPages → page < pmm.maxPageIndex ∧ usable page) :
    PmmOk usable (pmm.markPagesFree pages) := by
  induction pages generalizing pmm with
  | nil => exact ok
  | cons page rest ih =>
    have later := fun other member => inside other (List.mem_cons_of_mem page member)
    rw [Pmm.markPagesFree, List.foldl_cons]
    split
    · rename_i small
      obtain ⟨below, isUsable⟩ := inside page List.mem_cons_self small
      exact ih (ok.setFree below isUsable) later
    · exact ih ok later

end PmmOk

theorem PmmOk.addEntry (ok : PmmOk (UsablePage memmap) pmm)
    (member : entry ∈ memmap) (small : entry.base + entry.length + pageSize ≤ 2 ^ 64) :
    PmmOk (UsablePage memmap) (pmm.addEntry entry) := by
  have noWrap : wrap64 (entry.base + entry.length) = entry.base + entry.length :=
    Nat.mod_eq_of_lt (by simp only [pageSize] at small; omega)
  have pageEnd : alignUp (entry.base + entry.length) pageSize / pageSize =
      (entry.base + entry.length + 4095) / 4096 := by
    simp only [alignUp, wrap64, pageSize] at small ⊢
    omega
  have start : alignUp entry.base pageSize / pageSize = (entry.base + 4095) / 4096 := by
    simp only [alignUp, wrap64, pageSize] at small ⊢
    omega
  have stop : alignDown (entry.base + entry.length) pageSize / pageSize =
      (entry.base + entry.length) / 4096 := by
    simp only [alignDown, pageSize]
    omega
  obtain ⟨raised, reaches⟩ := ok.raise ((entry.base + entry.length + 4095) / 4096)
  simp only [Pmm.addEntry, noWrap, pageEnd]
  split
  · rename_i isUsable
    rw [Pmm.markRangeFree, noWrap]
    apply raised.markPagesFree
    intro page inside below
    obtain ⟨first, last⟩ := List.mem_range'_1.mp inside
    refine ⟨(Nat.lt_min.mpr ⟨by omega, below⟩).trans_le reaches, entry, member, isUsable, ?_, ?_⟩
    · simp only [pageSize]
      omega
    · simp only [pageSize]
      omega
  · exact raised

/-- The state after `memory_init`. -/
theorem pmmOk_memoryInit {memmap}
    (small : ∀ entry ∈ memmap, entry.base + entry.length + pageSize ≤ 2 ^ 64) (k : Machine) :
    PmmOk (UsablePage memmap) (memoryInit memmap k).pmm := by
  have blank : PmmOk (UsablePage memmap) Pmm.blank := by
    constructor
    · simp [Pmm.blank, Pmm.clearPages]
    · intro page clear
      cases clear
  have folded : ∀ (entries : List MemmapEntry) (pmm : Pmm), (∀ entry ∈ entries, entry ∈ memmap) →
      PmmOk (UsablePage memmap) pmm → PmmOk (UsablePage memmap) (entries.foldl Pmm.addEntry pmm) := by
    intro entries
    induction entries with
    | nil => exact fun pmm _ ok => ok
    | cons entry rest ih =>
      intro pmm inside ok
      have here := inside entry List.mem_cons_self
      exact ih (pmm.addEntry entry) (fun other member => inside other (List.mem_cons_of_mem entry member))
        (ok.addEntry here (small entry here))
  exact folded memmap Pmm.blank (fun _ member => member) blank

theorem searchRun_free (found : searchRun used count limit rounds from_ = some start) :
    ∀ page ∈ List.range' start count, used page = false := by
  induction rounds generalizing from_ with
  | zero => cases found
  | succ rounds ih =>
    unfold searchRun at found
    split at found
    · split at found
      · rename_i none
        cases found
        intro page member
        obtain ⟨low, high⟩ := List.mem_range'_1.mp member
        have free := List.find?_eq_none.mp none (page - start) (List.mem_range.mpr (by omega))
        rw [Nat.add_sub_cancel' low] at free
        exact Bool.eq_false_iff.mpr free
      · exact ih found
    · cases found

theorem takeRunPages_spec
    (ok : PmmOk usable k.pmm) (free : ∀ page ∈ List.range' start count, k.pmm.used page = false) :
    PmmOk usable (takeRunPages count start k).pmm ∧
      ∀ page, (takeRunPages count start k).pmm.used page ↔
        k.pmm.used page ∨ page ∈ List.range' start count := by
  induction count generalizing start k with
  | zero => exact ⟨ok, fun page => by simp [takeRunPages]⟩
  | succ count ih =>
    have first := free start List.mem_cons_self
    have later : ∀ page ∈ List.range' (start + 1) count, (k.pmm.setUsed start).used page = false := by
      intro page member
      have other : page ≠ start := by
        have low := (List.mem_range'_1.mp member).1
        omega
      simp only [Pmm.setUsed, Function.update_of_ne other]
      exact free page (List.mem_cons_of_mem start member)
    obtain ⟨rest, marked⟩ := ih (k := { k.zeroPage start with pmm := k.pmm.setUsed start })
      (ok.setUsed first) later
    refine ⟨rest, fun page => ?_⟩
    rw [takeRunPages, marked page, List.range'_succ]
    by_cases same : page = start
    · simp [same, Pmm.setUsed]
    · simp [same, Pmm.setUsed]

theorem pmmAllocContiguousPages_ok (ran : pmmAllocContiguousPages count k = .ok (phys, k')) :
    (count = 0 ∧ phys = 0 ∧ k' = k) ∨
      ∃ start, ∃ inside : start + count ≤ k.pmm.maxPageIndex, phys = start * pageSize ∧
        k' = takeRun k start count inside ∧
        ∀ page ∈ List.range' start count, k.pmm.used page = false := by
  unfold pmmAllocContiguousPages at ran
  split at ran
  · rename_i none
    cases ran
    exact .inl ⟨none, rfl, rfl⟩
  · split at ran
    · cases ran
    · rename_i start found
      split at ran
      · rename_i inside
        cases ran
        refine .inr ⟨start, inside, rfl, rfl, ?_⟩
        rcases Option.or_eq_some_iff.mp found with first | ⟨_, second⟩
        · exact searchRun_free first
        · exact searchRun_free second
      · cases ran

/-- The machine after `memory_init` and any allocations and frees. `out` are the pages handed out and
    not freed since; only such a page is freed. -/
inductive Allocations (memmap : List MemmapEntry) : Machine → List Nat → Prop where
  | init (k : Machine) : Allocations memmap (memoryInit memmap k) []
  | alloc {k k' : Machine} {out : List Nat} {phys : Nat} (before : Allocations memmap k out)
      (ran : pmmAllocPage k = .ok (phys, k')) : Allocations memmap k' (phys / pageSize :: out)
  | contiguous {k k' : Machine} {out : List Nat} {count phys : Nat} (before : Allocations memmap k out)
      (ran : pmmAllocContiguousPages count k = .ok (phys, k')) :
      Allocations memmap k' (List.range' (phys / pageSize) count ++ out)
  | free {k k' : Machine} {out : List Nat} {page : Nat} (before : Allocations memmap k out)
      (isOut : page ∈ out) (ran : pmmFreePage (page * pageSize) k = .ok k') :
      Allocations memmap k' (out.erase page)

def FreshPage (memmap : List MemmapEntry) (k : Machine) (out : List Nat) (page : Nat) : Prop :=
  k.pmm.used page = false ∧ UsablePage memmap page ∧ page ∉ out

/-- What holds between the calls of the allocator, and of the next call. -/
structure AllocatorOk (memmap : List MemmapEntry) (k : Machine) (out : List Nat) : Prop where
  count : k.pmm.freePageCount = k.pmm.clearPages.card
  clear : ∀ page, k.pmm.used page = false → page < k.pmm.maxPageIndex ∧ UsablePage memmap page
  once : out.Nodup ∧ ∀ page ∈ out, k.pmm.used page
  alloc : ∀ phys k', pmmAllocPage k = .ok (phys, k') →
    ∃ page, phys = page * pageSize ∧ FreshPage memmap k out page
  contiguous : ∀ count phys k', pmmAllocContiguousPages count k = .ok (phys, k') →
    phys % pageSize = 0 ∧ (∀ page ∈ List.range' (phys / pageSize) count, FreshPage memmap k out page) ∧
    ∀ page, k'.pmm.used page ↔
      k.pmm.used page ∨ page ∈ List.range' (phys / pageSize) count
  panic : ∀ e, pmmAllocPage k = .error e → ∀ page, k.pmm.used page

/-- The search of `pmm_alloc_page` misses no free page. -/
theorem findFree_none (ok : PmmOk usable pmm) (none : pmm.findFree = none) : pmm.used page := by
  by_contra clear
  have isClear : pmm.used page = false := by simpa using clear
  have inside := (ok.clear page isClear).1
  unfold Pmm.findFree at none
  split at none
  · cases none
  · rename_i first
    by_cases behind : pmm.nextHint ≤ page
    · have skipped := List.find?_eq_none.mp first page (List.mem_range'_1.mpr ⟨behind, by omega⟩)
      simp [isClear] at skipped
    · have skipped := List.find?_eq_none.mp none page (List.mem_range'_1.mpr ⟨Nat.zero_le _, by omega⟩)
      simp [isClear] at skipped

section Runs

variable {memmap : List MemmapEntry} {k : Machine} {out : List Nat}

/-- The next call, in a state with exact counts in which every page that is out is marked. -/
theorem allocatorOk (ok : PmmOk (UsablePage memmap) k.pmm) (nodup : out.Nodup)
    (marked : ∀ page ∈ out, k.pmm.used page) : AllocatorOk memmap k out where
  count := ok.count
  clear := ok.clear
  once := ⟨nodup, marked⟩
  alloc phys k' ran := by
    obtain ⟨page, inside, free, isPhys, _⟩ := pmmAllocPage_ok ran
    refine ⟨page, isPhys, free, (ok.clear page free).2, fun isOut => ?_⟩
    have used := marked page isOut
    rw [free] at used
    cases used
  contiguous count phys k' ran := by
    rcases pmmAllocContiguousPages_ok ran with ⟨rfl, rfl, rfl⟩ | ⟨start, inside, rfl, rfl, free⟩
    · simp
    · rw [Nat.mul_div_cancel start (by decide : 0 < pageSize)]
      refine ⟨Nat.mul_mod_left start pageSize, fun page member => ?_, (takeRunPages_spec ok free).2⟩
      refine ⟨free page member, (ok.clear page (free page member)).2, fun isOut => ?_⟩
      have used := marked page isOut
      rw [free page member] at used
      cases used
  panic e ran page := by
    unfold pmmAllocPage at ran
    split at ran
    · rename_i none
      exact findFree_none ok none
    · cases ran

/-- One call keeps the counts exact and the pages that are out marked. -/
theorem Allocations.marked (small : ∀ entry ∈ memmap, entry.base + entry.length + pageSize ≤ 2 ^ 64)
    (reached : Allocations memmap k out) :
    PmmOk (UsablePage memmap) k.pmm ∧ out.Nodup ∧ ∀ page ∈ out, k.pmm.used page ∧
      page < k.pmm.maxPageIndex ∧ UsablePage memmap page := by
  induction reached with
  | init k => exact ⟨pmmOk_memoryInit small k, List.nodup_nil, fun _ member => absurd member List.not_mem_nil⟩
  | alloc before ran ih =>
    obtain ⟨ok, nodup, marked⟩ := ih
    obtain ⟨page, inside, free, rfl, rfl⟩ := pmmAllocPage_ok ran
    rw [Nat.mul_div_cancel page (by decide : 0 < pageSize)]
    refine ⟨ok.take inside free, List.nodup_cons.mpr ⟨fun isOut => ?_, nodup⟩, ?_⟩
    · have used := (marked page isOut).1
      rw [free] at used
      cases used
    · intro other member
      rcases List.mem_cons.mp member with rfl | old
      · exact ⟨by simp [Machine.takePage, Pmm.take], inside, (ok.clear other free).2⟩
      · obtain ⟨used, below, isUsable⟩ := marked other old
        refine ⟨?_, below, isUsable⟩
        simp only [Machine.takePage, Pmm.take, Function.update_apply]
        split
        · rfl
        · exact used
  | contiguous before ran ih =>
    obtain ⟨ok, nodup, marked⟩ := ih
    rcases pmmAllocContiguousPages_ok ran with ⟨rfl, rfl, rfl⟩ | ⟨start, inside, rfl, rfl, free⟩
    · exact ⟨ok, by simpa using nodup, by simpa using marked⟩
    · obtain ⟨taken, used⟩ := takeRunPages_spec ok free
      have sameSize := takeRunPages_maxPageIndex
      rw [Nat.mul_div_cancel start (by decide : 0 < pageSize)]
      refine ⟨taken.hint _, List.nodup_append'.mpr ⟨List.nodup_range', nodup, ?_⟩, ?_⟩
      · intro page member isOut
        have stillUsed := (marked page isOut).1
        rw [free page member] at stillUsed
        cases stillUsed
      · intro page member
        rcases List.mem_append.mp member with new | old
        · have bounds := ok.clear page (free page new)
          exact ⟨(used page).mpr (.inr new), by rw [takeRun, sameSize]; exact bounds.1, bounds.2⟩
        · obtain ⟨wasUsed, below, isUsable⟩ := marked page old
          exact ⟨(used page).mpr (.inl wasUsed), by rw [takeRun, sameSize]; exact below, isUsable⟩
  | @free k k' out page before isOut ran ih =>
    obtain ⟨ok, nodup, marked⟩ := ih
    obtain ⟨_, inside, isUsable⟩ := marked page isOut
    rw [pmmFreePage_eq inside, Except.ok.injEq] at ran
    subst ran
    refine ⟨ok.release inside isUsable, nodup.erase page, ?_⟩
    intro other member
    obtain ⟨other', old⟩ := (List.Nodup.mem_erase_iff nodup).mp member
    obtain ⟨used, below, usable⟩ := marked other old
    refine ⟨?_, below, usable⟩
    simp only [Pmm.release, Function.update_of_ne other']
    exact used

/-- The page allocator, after `memory_init` on any memory map and any sequence of calls. -/
theorem page_allocator_ok (small : ∀ entry ∈ memmap, entry.base + entry.length + pageSize ≤ 2 ^ 64)
    (reached : Allocations memmap k out) : AllocatorOk memmap k out := by
  obtain ⟨ok, nodup, marked⟩ := reached.marked small
  exact allocatorOk ok nodup fun page member => (marked page member).1

end Runs

def smallMemmap : List MemmapEntry := [⟨0, 4096, 1⟩, ⟨4096, 65536, 0⟩]

/-- A machine as the boot loader might leave it, with nothing in memory. -/
def blankMachine : Machine where
  mem _ _ := 0
  pmm := .blank
  cr3 := 0
  kernelCr3 := 0
  heap := { blocks := [], next := 0xffffffff90000000, mappedEnd := 0xffffffff90000000 }
  mmioNext := 0xffffffffa0000000

theorem smallMemmap_small : ∀ entry ∈ smallMemmap, entry.base + entry.length + pageSize ≤ 2 ^ 64 := by
  simp [smallMemmap, pageSize]

/-- On the small memory map an allocation succeeds, and the theorem speaks of the state behind it. -/
theorem page_allocator_ok_small :
    ∃ phys k, pmmAllocPage (memoryInit smallMemmap blankMachine) = .ok (phys, k) ∧
      AllocatorOk smallMemmap k [phys / pageSize] := by
  have start : Allocations smallMemmap (memoryInit smallMemmap blankMachine) [] := .init _
  cases ran : pmmAllocPage (memoryInit smallMemmap blankMachine) with
  | error e =>
    have full := (page_allocator_ok smallMemmap_small start).panic e ran 1
    have clear : (memoryInit smallMemmap blankMachine).pmm.used 1 = false := by decide
    cases full
  | ok result => exact ⟨result.1, result.2, rfl, page_allocator_ok smallMemmap_small (start.alloc ran)⟩

/-- `count` free pages behind one another. -/
def FreeRun (pmm : Pmm) (count start : Nat) : Prop :=
  start + count ≤ pmm.maxPageIndex ∧ ∀ page ∈ List.range' start count, pmm.used page = false

section Search

variable {used : Nat → Bool} {count limit rounds from_ start : Nat} (small : limit + count < 2 ^ 64)

include small

theorem searchRun_between (inside : from_ ≤ limit) (found : searchRun used count limit rounds from_ = some start) :
    from_ ≤ start ∧ start + count ≤ limit := by
  induction rounds generalizing from_ with
  | zero => cases found
  | succ rounds ih =>
    unfold searchRun at found
    rw [show wrap64 (from_ + count) = from_ + count from Nat.mod_eq_of_lt (by omega)] at found
    split at found
    · rename_i fits
      split at found
      · cases found
        exact ⟨le_rfl, fits⟩
      · rename_i i search
        have near := List.mem_range.mp (List.mem_of_find?_eq_some search)
        obtain ⟨low, high⟩ := ih (by omega) found
        exact ⟨by omega, high⟩
    · cases found

/-- The search misses no run: a used page that it goes on behind is in none further on. -/
theorem searchRun_complete (free : ∀ page ∈ List.range' start count, used page = false) (low : from_ ≤ start)
    (high : start + count ≤ limit) (enough : start < from_ + rounds) :
    searchRun used count limit rounds from_ ≠ none := by
  induction rounds generalizing from_ with
  | zero => omega
  | succ rounds ih =>
    unfold searchRun
    rw [show wrap64 (from_ + count) = from_ + count from Nat.mod_eq_of_lt (by omega), if_pos (by omega)]
    split
    · nofun
    · rename_i i search
      have near := List.mem_range.mp (List.mem_of_find?_eq_some search)
      have isUsed := List.find?_some search
      have beyond : from_ + i < start := by
        by_contra inside
        rw [free (from_ + i) (List.mem_range'_1.mpr ⟨by omega, by omega⟩)] at isUsed
        cases isUsed
      exact ih (by omega) (by omega)

end Search

/-- The allocator finds the runs on either side of the hint, and no others. -/
theorem pmmAllocContiguousPages_finds (some_ : 0 < count) :
    (∃ start k', pmmAllocContiguousPages count k = .ok (start * pageSize, k') ∧ FreeRun k.pmm count start) ↔
      ∃ start, FreeRun k.pmm count start ∧ (k.pmm.nextHint ≤ start ∨ start + count ≤ k.pmm.nextHint) := by
  have bounded : k.pmm.maxPageIndex < 2 ^ 23 := k.pmm.bounded.trans_lt (by decide)
  have hinted := k.pmm.hinted
  have searched {found : Nat} (few : count ≤ k.pmm.maxPageIndex)
      (search : (searchRun k.pmm.used count k.pmm.maxPageIndex (2 ^ 64) k.pmm.nextHint).or
        (searchRun k.pmm.used count k.pmm.nextHint (2 ^ 64) 0) = some found) :
      FreeRun k.pmm count found ∧ (k.pmm.nextHint ≤ found ∨ found + count ≤ k.pmm.nextHint) := by
    rcases Option.or_eq_some_iff.mp search with first | ⟨-, second⟩
    · obtain ⟨low, high⟩ := searchRun_between (by omega) hinted first
      exact ⟨⟨high, searchRun_free first⟩, .inl low⟩
    · obtain ⟨-, high⟩ := searchRun_between (by omega) (Nat.zero_le _) second
      exact ⟨⟨high.trans hinted, searchRun_free second⟩, .inr high⟩
  unfold pmmAllocContiguousPages
  rw [if_neg (by omega)]
  constructor
  · rintro ⟨start, k', ran, run⟩
    have few := run.1
    split at ran
    · cases ran
    · rename_i found search
      exact ⟨found, searched (by omega) search⟩
  · rintro ⟨start, ⟨inside, free⟩, aside⟩
    split
    · rename_i none
      obtain ⟨first, second⟩ := Option.or_eq_none_iff.mp none
      rcases aside with behind | before
      · exact absurd first (searchRun_complete (by omega) free behind inside (by omega))
      · exact absurd second (searchRun_complete (by omega) free (Nat.zero_le _) before (by omega))
    · rename_i found search
      have run := (searched (by omega) search).1
      rw [dif_pos run.1]
      exact ⟨found, _, rfl, run⟩

/-- If there is a run of free pages, then the allocator returns one, unless all of them lie across the hint. -/
theorem contiguous_allocation_complete_iff {k : Machine} {count : Nat} (some_ : 0 < count) :
    ((∃ start, FreeRun k.pmm count start) →
      ∃ start k', pmmAllocContiguousPages count k = .ok (start * pageSize, k') ∧ FreeRun k.pmm count start) ↔
    ((∃ start, FreeRun k.pmm count start) →
      ∃ start, FreeRun k.pmm count start ∧ (k.pmm.nextHint ≤ start ∨ start + count ≤ k.pmm.nextHint)) :=
  imp_congr_right fun _ => pmmAllocContiguousPages_finds some_

/-- Three pages are taken, the first given back, the rest of the memory taken and the second page given back. -/
theorem contiguous_allocation_misses : ∃ k out, Allocations smallMemmap k out ∧ FreeRun k.pmm 2 1 ∧
    pmmAllocContiguousPages 2 k = .error .outOfContiguousPhysicalPages := by
  have taken := @Allocations.contiguous smallMemmap _ _ _ 3 _ (.init blankMachine) rfl
  have given := Allocations.free taken (show 1 ∈ _ by decide) rfl
  have full := @Allocations.contiguous smallMemmap _ _ _ 13 _ given rfl
  have two := Allocations.free full (show 2 ∈ _ by decide) rfl
  exact ⟨_, _, two, ⟨by decide +kernel, by decide +kernel⟩, rfl⟩

/-- Right after `memory_init` no run lies across the hint. -/
theorem contiguous_allocation_complete_three :
    ∃ start k', pmmAllocContiguousPages 3 (memoryInit smallMemmap blankMachine) = .ok (start * pageSize, k') ∧
      FreeRun (memoryInit smallMemmap blankMachine).pmm 3 start :=
  (contiguous_allocation_complete_iff (by decide)).mpr
    (fun _ => ⟨1, ⟨by decide, by decide⟩, .inl (by decide)⟩) ⟨1, by decide, by decide⟩

end TangPingOS
