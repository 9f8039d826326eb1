import TangPingOS.Process.Loading
import TangPingOS.Process.Moves

/-! # The heap of a user task

`scheduler_set_current_brk` maps the pages between the old break and the new one. Which pages
these are depends on the task's three break fields alone, so the pages of a whole sequence of calls
can be listed and compared with those of the program and its stack.
-/

namespace TangPingOS

open Lib

variable {image : Bytes} {breaks : List Nat} {k k' : Machine}
  {cr3Phys current flags index limit newBreak page start : Nat} {panic : Panic}

/-! ## The pages of a sequence of calls -/

/-- Fresh pages are mapped at the given places, one after the other. -/
def mapEach (cr3Phys flags : Nat) (panic : Panic) : List Nat → Machine → Except Panic Machine
  | [], k => .ok k
  | page :: rest, k => do
    let (phys, k) ← pmmAllocPage k
    let (mapped, k) ← vmmMapPageIn cr3Phys page phys flags k
    if mapped then mapEach cr3Phys flags panic rest k else .error panic

/-- The pages from `page` on, `count` of them. -/
def pagesFrom (page count : Nat) : List Nat := (List.range count).map fun i => page + i * pageSize

theorem pagesFrom_succ : pagesFrom page (count + 1) = page :: pagesFrom (page + pageSize) count := by
  rw [pagesFrom, List.range_succ_eq_map, List.map_cons, Nat.zero_mul, List.map_map]
  congr 1
  apply List.map_congr_left
  intro i _
  simp only [Function.comp_apply, Nat.succ_mul]
  omega

theorem mapFreshPages_eq :
    mapFreshPages cr3Phys flags panic count page k = mapEach cr3Phys flags panic (pagesFrom page count) k := by
  induction count generalizing page k with
  | zero => rfl
  | succ count ih =>
    rw [pagesFrom_succ, mapFreshPages, mapEach]
    simp only [ih]

theorem mapEach_append :
    mapEach cr3Phys flags panic (first ++ second) k
      = mapEach cr3Phys flags panic first k >>= mapEach cr3Phys flags panic second := by
  induction first generalizing k with
  | nil => rfl
  | cons page rest ih =>
    rw [List.cons_append, mapEach, mapEach]
    cases pmmAllocPage k with
    | error e => rfl
    | ok taken =>
      obtain ⟨phys, k₁⟩ := taken
      cases ran : vmmMapPageIn cr3Phys page phys flags k₁ with
      | error e => simp only [bind, Except.bind, ran]
      | ok result =>
        obtain ⟨mapped, k₂⟩ := result
        cases mapped with
        | false => simp [bind, Except.bind, ran]
        | true =>
          simp only [bind, Except.bind, ran] at ih ⊢
          exact ih

/-- The call with `newBreak` moves the break and maps pages. -/
def BrkMoves (start limit newBreak : Nat) : Prop := newBreak ≠ 0 ∧ start ≤ newBreak ∧ newBreak ≤ limit

instance (start limit newBreak : Nat) : Decidable (BrkMoves start limit newBreak) := inferInstanceAs (Decidable (_ ∧ _))

def brkPages (start limit current newBreak : Nat) : List Nat :=
  if BrkMoves start limit newBreak ∧ current < newBreak then
    pagesFrom (alignUp current pageSize) ((alignUp newBreak pageSize - alignUp current pageSize) / pageSize)
  else []

def brkNext (start limit current newBreak : Nat) : Nat := if BrkMoves start limit newBreak then newBreak else current

def heapPages (start limit : Nat) : Nat → List Nat → List Nat
  | _, [] => []
  | current, newBreak :: rest =>
    brkPages start limit current newBreak ++ heapPages start limit (brkNext start limit current newBreak) rest

def brkCalls (k : Kernel) : List Nat → Except Panic Kernel
  | [] => .ok k
  | newBreak :: rest => do
    let (_, k) ← schedulerSetCurrentBrk newBreak k
    brkCalls k rest

/-- One call maps its pages, or fails with them, and moves the break. -/
theorem schedulerSetCurrentBrk_maps {k : Kernel} {index newBreak : Nat} (current : k.current = .task index)
    (inside : index < k.tasks.length) :
    let task := k.taskAt (.task index)
    let mapped := mapEach task.cr3 userDataFlags .growUserHeap
      (brkPages task.brkStart task.brkLimit task.brkCurrent newBreak) k.machine
    (∃ panic, mapped = .error panic ∧ schedulerSetCurrentBrk newBreak k = .error panic) ∨
      ∃ result k', schedulerSetCurrentBrk newBreak k = .ok (result, k') ∧ mapped = .ok k'.machine ∧
        k'.current = .task index ∧ index < k'.tasks.length ∧ k'.taskAt (.task index) =
          { task with brkCurrent := brkNext task.brkStart task.brkLimit task.brkCurrent newBreak } := by
  intro task mapped
  unfold schedulerSetCurrentBrk
  rw [current]
  dsimp only
  by_cases moves : BrkMoves task.brkStart task.brkLimit newBreak
  · have accepted : ¬ (newBreak < task.brkStart ∨ task.brkLimit < newBreak) := by
      have := moves.2
      omega
    have moved (m : Machine) : ((k.withMachine m).modifyTask (.task index) fun task =>
        { task with brkCurrent := newBreak }).taskAt (.task index)
          = { task with brkCurrent := brkNext task.brkStart task.brkLimit task.brkCurrent newBreak } := by
      rw [Kernel.taskAt_modifyTask (k := k.withMachine m) inside, if_pos rfl, brkNext, if_pos moves]
      rfl
    have inside' (m : Machine) : index < ((k.withMachine m).modifyTask (.task index) fun task =>
        { task with brkCurrent := newBreak }).tasks.length := by
      rw [Kernel.length_modifyTask]
      exact inside
    rw [if_neg moves.1, if_neg accepted]
    by_cases grows : task.brkCurrent < newBreak
    · have pages : mapped = mapFreshPages task.cr3 userDataFlags .growUserHeap
          ((alignUp newBreak pageSize - alignUp task.brkCurrent pageSize) / pageSize)
          (alignUp task.brkCurrent pageSize) k.machine := by
        show mapEach task.cr3 userDataFlags .growUserHeap (brkPages _ _ _ _) k.machine = _
        rw [brkPages, if_pos ⟨moves, grows⟩, mapFreshPages_eq]
      rw [if_pos grows, ← pages]
      cases mapped with
      | error panic => exact .inl ⟨panic, rfl, rfl⟩
      | ok m => exact .inr ⟨_, _, rfl, rfl, current, inside' m, moved m⟩
    · have pages : mapped = .ok k.machine := by
        show mapEach task.cr3 userDataFlags .growUserHeap (brkPages _ _ _ _) k.machine = _
        rw [brkPages, if_neg fun both => grows both.2]
        rfl
      rw [if_neg grows]
      exact .inr ⟨_, _, rfl, pages, current, inside' k.machine, moved k.machine⟩
  · have pages : mapped = .ok k.machine := by
      show mapEach task.cr3 userDataFlags .growUserHeap (brkPages _ _ _ _) k.machine = _
      rw [brkPages, if_neg fun grows => moves grows.1]
      rfl
    have refused : newBreak = 0 ∨ newBreak < task.brkStart ∨ task.brkLimit < newBreak := by
      unfold BrkMoves at moves
      omega
    refine .inr ⟨task.brkCurrent, k, ?_, pages, current, inside, ?_⟩
    · split
      · rfl
      · rename_i some_
        rw [if_pos (refused.resolve_left some_)]
    · rw [brkNext, if_neg moves]

/-- The pages that a task's calls map, whatever the order of the breaks. -/
theorem brkCalls_maps {k : Kernel} {index : Nat} {breaks : List Nat} (current : k.current = .task index)
    (inside : index < k.tasks.length) :
    let task := k.taskAt (.task index)
    (brkCalls k breaks).map Kernel.machine = mapEach task.cr3 userDataFlags .growUserHeap
      (heapPages task.brkStart task.brkLimit task.brkCurrent breaks) k.machine := by
  intro task
  induction breaks generalizing k with
  | nil => rfl
  | cons newBreak rest ih =>
    rw [brkCalls, heapPages, mapEach_append]
    cases @schedulerSetCurrentBrk_maps k index newBreak current inside with
    | inl failed =>
      obtain ⟨panic, pages, ran⟩ := failed
      rw [pages, ran]
      rfl
    | inr done =>
      obtain ⟨result, k', ran, pages, current', inside', task'⟩ := done
      rw [pages, ran]
      have others := ih current' inside'
      simp only [task'] at others
      exact others

section

variable (start_ : start % pageSize = 0) (limit_ : limit % pageSize = 0) (low : limit ≤ userAddressMax)
  (from_ : start ≤ current)

include start_ limit_ low from_

theorem brkPages_between (mem : page ∈ brkPages start limit current newBreak) : start ≤ page ∧ page + pageSize ≤ limit := by
  unfold brkPages at mem
  split at mem
  · rename_i grows
    obtain ⟨⟨-, -, below⟩, grows⟩ := grows
    obtain ⟨i, low_i, rfl⟩ := List.mem_map.mp mem
    rw [alignUp_page (by omega), alignUp_page (by omega), List.mem_range] at *
    simp only [pageSize] at *
    omega
  · cases mem

theorem heapPages_between (mem : page ∈ heapPages start limit current breaks) : start ≤ page ∧ page + pageSize ≤ limit := by
  induction breaks generalizing current with
  | nil => cases mem
  | cons newBreak rest ih =>
    cases List.mem_append.mp mem with
    | inl here => exact brkPages_between start_ limit_ low from_ here
    | inr later =>
      apply ih ?_ later
      unfold brkNext
      split
      · rename_i moves
        exact moves.2.1
      · exact from_

end

theorem heapLimitOf_aligned (aligned : start % pageSize = 0) : heapLimitOf start % pageSize = 0 := by
  unfold heapLimitOf
  dsimp only
  split
  · decide
  · simp only [wrap64, userHeapSize, pageSize] at *
    omega

theorem heapLimitOf_le (start : Nat) : heapLimitOf start ≤ userStackTop - userStackSize - pageSize := by
  simp only [heapLimitOf]
  split <;> omega

theorem alignUp_aligned : alignUp value pageSize % pageSize = 0 := Nat.mul_mod_left _ _

/-- The heap of a program: from the break on, up to a page below the stack. -/
theorem heapPages_heap (mem : page ∈ heapPages (alignUp value pageSize) (heapLimitOf (alignUp value pageSize))
      (alignUp value pageSize) breaks) :
    alignUp value pageSize ≤ page ∧ page + pageSize ≤ heapLimitOf (alignUp value pageSize) := by
  have limit := heapLimitOf_le (alignUp value pageSize)
  have top : userStackTop - userStackSize - pageSize ≤ userAddressMax := by decide
  exact heapPages_between alignUp_aligned (heapLimitOf_aligned alignUp_aligned) (limit.trans top)
    le_rfl mem

/-- What `load_elf_image` makes of the ends of the segments. -/
structure ImageEnd (imageSize first last : Nat) (phdrs : List Elf64Phdr) : Prop where
  above : first ≤ last
  ends : ∀ phdr ∈ phdrs, wrap64 (phdr.vaddr + phdr.memsz) ≤ last
  isOne : last = first ∨ ∃ phdr ∈ phdrs, last = wrap64 (phdr.vaddr + phdr.memsz)
  oks : ∀ phdr ∈ phdrs, phdr.memsz ≠ 0 → SegmentOk imageSize phdr

theorem loadSegments_end (ran : loadSegments cr3Phys image phdrs first k = .ok (last, k')) :
    ImageEnd image.length first last (phdrs.filter fun phdr => decide (phdr.type = 1)) := by
  induction phdrs generalizing first k with
  | nil =>
    cases ran
    exact ⟨le_rfl, nofun, .inl rfl, nofun⟩
  | cons phdr rest ih =>
    rw [loadSegments] at ran
    by_cases loads : phdr.type = 1
    · rw [if_pos loads] at ran
      obtain ⟨k₁, ranOne, ran⟩ := bind_eq_ok ran
      obtain ⟨above, ends, isOne, oks⟩ := ih ran
      rw [List.filter_cons_of_pos (by simpa using loads)]
      refine ⟨by omega, List.forall_mem_cons.mpr ⟨by omega, ends⟩, ?_, List.forall_mem_cons.mpr ⟨?_, oks⟩⟩
      · cases isOne with
        | inl isMax =>
          cases max_choice first (wrap64 (phdr.vaddr + phdr.memsz)) with
          | inl isFirst => exact .inl (isMax.trans isFirst)
          | inr isNew => exact .inr ⟨phdr, List.mem_cons_self, isMax.trans isNew⟩
        | inr isLater =>
          obtain ⟨other, mem, isOther⟩ := isLater
          exact .inr ⟨other, List.mem_cons_of_mem _ mem, isOther⟩
      · intro some_
        rw [mapElfSegment, if_neg some_] at ranOne
        obtain ⟨_, checked, -⟩ := bind_eq_ok ranOne
        exact checkElfSegment_ok some_ checked
    · rw [if_neg loads] at ran
      rw [List.filter_cons_of_neg (by simpa using loads)]
      exact ih ran

theorem loadElfImage_end (ran : loadElfImage image cr3Phys k = .ok (loaded, k')) :
    ∃ last, loaded.brkStart = alignUp last pageSize ∧ ImageEnd image.length 0 last (ptLoads image) := by
  obtain ⟨_, -, ran⟩ := bind_eq_ok ran
  obtain ⟨⟨last, k₁⟩, ranAll, ran⟩ := bind_eq_ok ran
  have same : _ = loaded := congrArg Prod.fst (Except.ok.inj ran)
  subst same
  exact ⟨last, rfl, loadSegments_end ranAll⟩

/-- The end of every segment, rounded up to a page, is a number of 64 bits. -/
def EndsFit (image : Bytes) : Prop := ∀ phdr ∈ ptLoads image, wrap64 (phdr.vaddr + phdr.memsz) + pageSize ≤ 2 ^ 64

instance (image : Bytes) : Decidable (EndsFit image) :=
  inferInstanceAs (Decidable (∀ phdr ∈ ptLoads image, _ + pageSize ≤ 2 ^ 64))

def StartsAboveHeap (image : Bytes) : Prop := ∀ phdr ∈ ptLoads image, phdr.memsz ≠ 0 → userHeapSize ≤ segmentStart phdr

variable {last : Nat} {phdr : Elf64Phdr}

section

variable (isEnd : ImageEnd image.length 0 last (ptLoads image))

include isEnd

theorem ImageEnd.lt : last < 2 ^ 64 := by
  cases isEnd.isOne with
  | inl zero => rw [zero]; decide
  | inr one =>
    obtain ⟨phdr, -, rfl⟩ := one
    exact Nat.mod_lt _ (by decide)

theorem ImageEnd.fits_iff : EndsFit image ↔ last + pageSize ≤ 2 ^ 64 := by
  constructor
  · intro fit
    cases isEnd.isOne with
    | inl zero => rw [zero]; decide
    | inr one =>
      obtain ⟨phdr, mem, rfl⟩ := one
      exact fit phdr mem
  · intro fits phdr mem
    have := isEnd.ends phdr mem
    omega

/-- Where the end of the image can be rounded up, the heap starts above every segment. -/
theorem ImageEnd.segmentEnd_le (fits : last + pageSize ≤ 2 ^ 64) (mem : phdr ∈ ptLoads image)
    (some_ : phdr.memsz ≠ 0) : segmentEnd phdr ≤ alignUp last pageSize := by
  have ok := isEnd.oks phdr mem some_
  have exact_ : wrap64 (phdr.vaddr + phdr.memsz) = phdr.vaddr + phdr.memsz :=
    Nat.mod_eq_of_lt (Nat.lt_of_le_of_lt ok.high (by decide))
  have below := isEnd.ends phdr mem
  have rounded : wrap64 (last + pageSize - 1) = last + pageSize - 1 :=
    Nat.mod_eq_of_lt (by simp only [pageSize] at *; omega)
  rw [segmentEnd, alignUp_page ok.high, alignUp, rounded]
  simp only [pageSize]
  omega

theorem ImageEnd.brkStart_zero (wraps : ¬ last + pageSize ≤ 2 ^ 64) : alignUp last pageSize = 0 := by
  have small := isEnd.lt
  simp only [alignUp, wrap64, pageSize] at *
  omega

end

theorem mem_lowHeap (aligned : page % pageSize = 0) (low : page < userHeapSize) :
    page ∈ heapPages 0 (heapLimitOf 0) 0 [userHeapSize] := by
  have pages : heapPages 0 (heapLimitOf 0) 0 [userHeapSize] = pagesFrom 0 4096 := by
    rw [heapPages, heapPages, List.append_nil]
    rfl
  rw [pages, pagesFrom, List.mem_map]
  simp only [pageSize, userHeapSize, List.mem_range] at *
  exact ⟨page / 4096, by omega, by omega⟩

/-- The heap of a loaded program keeps off its segments and its stack, unless the rounded end of the image wraps
    around: only the end of a header with nothing to load can be that high. The heap then starts at address 0 and
    takes the pages of every segment among the lowest 16 MiB. -/
theorem heap_apart_iff {cr3Phys : Nat} {loaded : UserImage} {m m' : Machine}
    (ran : loadElfImage image cr3Phys m = .ok (loaded, m')) :
    (∀ (k : Kernel) (index : Nat) (breaks : List Nat), k.current = .task index → index < k.tasks.length →
      (k.taskAt (.task index)).brkStart = loaded.brkStart → (k.taskAt (.task index)).brkCurrent = loaded.brkStart →
      (k.taskAt (.task index)).brkLimit = heapLimitOf loaded.brkStart →
      (brkCalls k breaks).map Kernel.machine = mapEach (k.taskAt (.task index)).cr3 userDataFlags .growUserHeap
        (heapPages loaded.brkStart (heapLimitOf loaded.brkStart) loaded.brkStart breaks) k.machine) ∧
    ((∀ breaks, ∀ page ∈ heapPages loaded.brkStart (heapLimitOf loaded.brkStart) loaded.brkStart breaks,
      (∀ phdr ∈ ptLoads image, ¬ phdr.Covers page) ∧
        (page + pageSize ≤ userStackTop - userStackSize ∨ userStackTop ≤ page)) ↔
      EndsFit image ∨ StartsAboveHeap image) := by
  obtain ⟨last, start, isEnd⟩ := loadElfImage_end ran
  constructor
  · intro k index breaks current inside isStart isCurrent isLimit
    have maps := @brkCalls_maps k index breaks current inside
    dsimp only at maps
    rw [isStart, isCurrent, isLimit] at maps
    exact maps
  rw [start, isEnd.fits_iff]
  constructor
  · intro apart
    by_cases fits : last + pageSize ≤ 2 ^ 64
    · exact .inl fits
    right
    intro phdr mem some_
    by_contra low
    rw [isEnd.brkStart_zero fits] at apart
    have aligned : segmentStart phdr % pageSize = 0 := Nat.mul_mod_left _ _
    obtain ⟨-, starts, -, -, ends, -⟩ := segment_pages (isEnd.oks phdr mem some_)
    apply (apart [userHeapSize] (segmentStart phdr) (mem_lowHeap aligned (by omega))).1 phdr mem
    exact ⟨some_, le_rfl, by omega⟩
  · intro fine breaks page mem
    obtain ⟨above, below⟩ := heapPages_heap mem
    have limit := heapLimitOf_le (alignUp last pageSize)
    refine ⟨fun phdr isPhdr covers => ?_, .inl (by omega)⟩
    obtain ⟨some_, from_, until_⟩ := covers
    by_cases fits : last + pageSize ≤ 2 ^ 64
    · have := isEnd.segmentEnd_le fits isPhdr some_
      omega
    · have starts := fine.resolve_left fits phdr isPhdr some_
      rw [isEnd.brkStart_zero fits] at below
      have : heapLimitOf 0 = userHeapSize := rfl
      simp only [pageSize] at below
      omega

/-- Two segments of the usual kind. -/
theorem heap_apart_usual : ∃ cr3Phys m loaded m', loadElfImage (twoSegments 0x20040) cr3Phys m = .ok (loaded, m') ∧
    ∀ breaks, ∀ page ∈ heapPages loaded.brkStart (heapLimitOf loaded.brkStart) loaded.brkStart breaks,
      (∀ phdr ∈ ptLoads (twoSegments 0x20040), ¬ phdr.Covers page) ∧
        (page + pageSize ≤ userStackTop - userStackSize ∨ userStackTop ≤ page) := by
  have ok : (loadFresh (twoSegments 0x20040)).toOption.map (fun _ => ()) = some () := by decide +kernel
  obtain ⟨⟨cr3Phys, k, loaded, k'⟩, ran, -⟩ := exists_ok ok
  obtain ⟨-, isLoaded⟩ := loadFresh_ok ran
  exact ⟨cr3Phys, k, loaded, k', isLoaded, (heap_apart_iff isLoaded).2.mpr (.inl (by decide +kernel))⟩

/-- A segment of sixteen bytes, and a header with nothing to load at the last address. -/
def highHeader : Bytes := elfFile [⟨1, 4, 0, 0x10000, 16, 16⟩, ⟨1, 4, 0, 2 ^ 64 - 1, 0, 0⟩]

/-- The break 0x11000 puts a heap page in the place of the segment's. -/
theorem heap_over_segment : ∃ cr3Phys m loaded m', loadFresh highHeader = .ok (cr3Phys, m, loaded, m') ∧
    loaded.brkStart = 0 ∧
    0x10000 ∈ heapPages loaded.brkStart (heapLimitOf loaded.brkStart) loaded.brkStart [0x11000] ∧
    ∃ phdr ∈ ptLoads highHeader, phdr.Covers 0x10000 := by
  have facts : (loadFresh highHeader).toOption.map (fun (_, _, loaded, _) => loaded.brkStart) = some 0 := by decide +kernel
  obtain ⟨⟨cr3Phys, m, loaded, m'⟩, ran, start⟩ := exists_ok facts
  refine ⟨cr3Phys, m, loaded, m', ran, start, ?_, by decide +kernel⟩
  dsimp only at start
  rw [start]
  decide +kernel

end TangPingOS
