import TangPingOS.Lib.Bytes
import TangPingOS.Lib.Words

/-! # Physical memory and its page allocator

The state behind `kernel/memory.c`: memory as pages of 64-bit words, the bitmap of
used pages with its search hint, the control register CR3 and the bookkeeping of
the kernel heap. `phys_to_virt` is the identity here, since the kernel reaches all
of physical memory through one fixed offset. The count of managed pages, which is
only reported, is left out.

A call of `kernel_panic` ends the run and is an error value.
-/

namespace TangPingOS

open Lib

/-- The panics of the modelled functions, one a message. -/
inductive Panic where
  | outOfPhysicalPages
  | outOfContiguousPhysicalPages
  | freeUnalignedPage
  | freeOutOfRangePage
  | hugeUserPd
  | hugeUserPdpt
  | mapKernelHeapPage
  | kernelHeapExhausted
  | invalidKernelHeapFree
  | moduleTooSmallForElfHeader
  | moduleNotElf
  | unsupportedElfFormat
  | elfNotX8664Executable
  | invalidElfProgramHeaderTable
  | elfProgramHeadersOutOfRange
  | elfEntryOutsideUserspace
  | segmentFileszExceedsMemsz
  | segmentFileRangeOutOfBounds
  | segmentOutsideUserspace
  | segmentIncompatibleAlignment
  | segmentOverlapsUserStack
  | mapElfSegmentPage
  | mapUserStack
  | createInitTask
  | growUserHeap
  | pendingStackFreeQueueFull
  | userFaultWithoutTask
  deriving DecidableEq, Repr

/-- A sequence that succeeds has succeeded in its first step and in the rest. -/
theorem bind_eq_ok {ε α β : Type} {x} {f : α → Except ε β} {b}
    (ran : (x >>= f) = .ok b) : ∃ a, x = .ok a ∧ f a = .ok b := by
  cases x with
  | error e => cases ran
  | ok a => exact ⟨a, rfl, ran⟩

/-- A computation found to end with a value of a certain kind. -/
theorem exists_ok {ε α β : Type} {x : Except ε α} {f} {b : β} (ran : x.toOption.map f = some b) :
    ∃ a, x = .ok a ∧ f a = b := by
  cases x with
  | error e => cases ran
  | ok a => exact ⟨a, rfl, Option.some.inj ran⟩

def pageSize : Nat := 4096

/-- `PMM_MAX_PAGES`: sixteen gibibytes. -/
def pmmMaxPages : Nat := 2 ^ 22

/-- The page allocator. `used` is `pmm_bitmap`, a bit a page. -/
structure Pmm where
  used : Nat → Bool
  maxPageIndex : Nat
  freePageCount : Nat
  nextHint : Nat
  bounded : maxPageIndex ≤ pmmMaxPages
  hinted : nextHint ≤ maxPageIndex

/-- A block of the kernel heap; `addr` is where its header lies. -/
structure HeapBlock where
  addr : Nat
  size : Nat
  free : Bool
  deriving DecidableEq, Repr

/-- The kernel heap: its blocks in the order of the list from `heap_head` on, `heap_next` and
    `heap_mapped_end`. -/
structure Heap where
  blocks : List HeapBlock
  next : Nat
  mappedEnd : Nat

structure Machine where
  /-- Word `i` of physical page `p`. -/
  mem : Nat → Nat → Nat
  pmm : Pmm
  cr3 : Nat
  kernelCr3 : Nat
  heap : Heap
  mmioNext : Nat

namespace Machine

def setWord (k : Machine) (page index value : Nat) : Machine :=
  { k with mem := Function.update k.mem page (Function.update (k.mem page) index value) }

def zeroPage (k : Machine) (page : Nat) : Machine :=
  { k with mem := Function.update k.mem page fun _ => 0 }

def byteAt (k : Machine) (phys : Nat) : UInt8 :=
  UInt8.ofNat (k.mem (phys / pageSize) (phys % pageSize / 8) / 256 ^ (phys % 8))

def setByte (k : Machine) (phys : Nat) (b : UInt8) : Machine :=
  let word := k.mem (phys / pageSize) (phys % pageSize / 8)
  let below := word % 256 ^ (phys % 8)
  let above := word / 256 ^ (phys % 8 + 1)
  k.setWord (phys / pageSize) (phys % pageSize / 8)
    (below + (b.toNat + above * 256) * 256 ^ (phys % 8))

/-- `memcpy_local` into physical memory. -/
def copyIn (k : Machine) (phys : Nat) : Bytes → Machine
  | [] => k
  | b :: rest => (k.setByte phys b).copyIn (phys + 1) rest

section

variable (k : Machine)

include k

@[simp] theorem setWord_pmm (page index value : Nat) :
    (k.setWord page index value).pmm = k.pmm := rfl

@[simp] theorem setWord_heap :
    (k.setWord page index value).heap = k.heap := rfl

theorem setWord_mem : (k.setWord page index value).mem p i = if p = page ∧ i = index then value else k.mem p i := by
  simp only [setWord]
  by_cases samePage : p = page
  · subst samePage
    by_cases sameIndex : i = index <;> simp [sameIndex]
  · simp [samePage]

theorem setWord_mem_self : (k.setWord page index value).mem page index = value := by
  rw [setWord_mem, if_pos ⟨rfl, rfl⟩]

theorem setWord_mem_other
    (other : ¬ (p = page ∧ i = index)) : (k.setWord page index value).mem p i = k.mem p i := by
  rw [setWord_mem, if_neg other]

end

/-- Only the contents of one page have changed. -/
structure OnlyPage (page : Nat) (k k' : Machine) : Prop where
  mem : ∀ p, p ≠ page → k'.mem p = k.mem p
  pmm : k'.pmm = k.pmm
  cr3 : k'.cr3 = k.cr3
  kernelCr3 : k'.kernelCr3 = k.kernelCr3
  heap : k'.heap = k.heap
  mmioNext : k'.mmioNext = k.mmioNext

theorem OnlyPage.refl (page : Nat) (k : Machine) : OnlyPage page k k := ⟨fun _ _ => rfl, rfl, rfl, rfl, rfl, rfl⟩

theorem OnlyPage.trans {page : Nat} {k k' k'' : Machine} (first : OnlyPage page k k')
    (second : OnlyPage page k' k'') : OnlyPage page k k'' where
  mem p other := (second.mem p other).trans (first.mem p other)
  pmm := second.pmm.trans first.pmm
  cr3 := second.cr3.trans first.cr3
  kernelCr3 := second.kernelCr3.trans first.kernelCr3
  heap := second.heap.trans first.heap
  mmioNext := second.mmioNext.trans first.mmioNext

theorem onlyPage_setWord : OnlyPage page k (k.setWord page index value) where
  mem p other := by simp [setWord, Function.update_of_ne other]
  pmm := rfl
  cr3 := rfl
  kernelCr3 := rfl
  heap := rfl
  mmioNext := rfl

theorem onlyPage_copyIn (k : Machine)
    (first : page * pageSize ≤ phys) (last : phys + bytes.length ≤ page * pageSize + pageSize) :
    OnlyPage page k (k.copyIn phys bytes) := by
  induction bytes generalizing k phys with
  | nil => exact OnlyPage.refl page k
  | cons b rest ih =>
    rw [List.length_cons] at last
    have here := Nat.div_eq_of_lt_le first (by rw [Nat.succ_mul]; omega)
    have byte : OnlyPage page k (k.setByte phys b) := by
      rw [setByte, here]
      exact onlyPage_setWord
    exact byte.trans (ih (k.setByte phys b) (by omega) (by omega))

end Machine

namespace Pmm

/-- The two passes of `pmm_alloc_page`: from the hint to the end, then from the start to the hint. -/
def findFree (pmm : Pmm) : Option Nat :=
  match (List.range' pmm.nextHint (pmm.maxPageIndex - pmm.nextHint)).find? fun page => !pmm.used page with
  | some page => some page
  | none => (List.range' 0 pmm.nextHint).find? fun page => !pmm.used page

theorem findFree_spec {pmm : Pmm} (found : pmm.findFree = some page) :
    page < pmm.maxPageIndex ∧ pmm.used page = false := by
  have hinted := pmm.hinted
  unfold findFree at found
  split at found
  · rename_i first search
    cases found
    have inside := List.mem_range'_1.mp (List.mem_of_find?_eq_some search)
    have free := List.find?_some search
    exact ⟨by omega, by simpa using free⟩
  · have inside := List.mem_range'_1.mp (List.mem_of_find?_eq_some found)
    have free := List.find?_some found
    exact ⟨by omega, by simpa using free⟩

/-- `pmm_set_used`, and the hint behind the page. -/
def take (pmm : Pmm) (page : Nat) (inside : page < pmm.maxPageIndex) : Pmm :=
  { pmm with
    used := Function.update pmm.used page true
    freePageCount := if pmm.used page then pmm.freePageCount else wrap64 (pmm.freePageCount + u64Max)
    nextHint := page + 1
    hinted := inside }

/-- `pmm_set_free`, and the hint at the page if it was behind it. -/
def release (pmm : Pmm) (page : Nat) : Pmm :=
  { pmm with
    used := Function.update pmm.used page false
    freePageCount := if pmm.used page then wrap64 (pmm.freePageCount + 1) else pmm.freePageCount
    nextHint := if page < pmm.nextHint then page else pmm.nextHint
    hinted := by
      have hinted := pmm.hinted
      split <;> omega }

theorem page_small (pmm : Pmm) (inside : page < pmm.maxPageIndex) : page < 2 ^ 40 := by
  have bounded := pmm.bounded
  simp only [pmmMaxPages] at bounded
  omega

theorem ne_of_used {pmm : Pmm} (used : pmm.used a) (free : pmm.used b = false) : a ≠ b := by
  rintro rfl
  rw [free] at used
  cases used

end Pmm

def Machine.takePage (k : Machine) (page : Nat) (inside : page < k.pmm.maxPageIndex) : Machine :=
  { k.zeroPage page with pmm := k.pmm.take page inside }

def pmmAllocPage (k : Machine) : Except Panic (Nat × Machine) :=
  match found : k.pmm.findFree with
  | none => .error .outOfPhysicalPages
  | some page => .ok (page * pageSize, k.takePage page (Pmm.findFree_spec found).1)

theorem pmmAllocPage_ok (ran : pmmAllocPage k = .ok (phys, k')) :
    ∃ page, ∃ inside : page < k.pmm.maxPageIndex, k.pmm.used page = false ∧
      phys = page * pageSize ∧ k' = k.takePage page inside := by
  unfold pmmAllocPage at ran
  split at ran
  · cases ran
  · rename_i page found
    cases ran
    obtain ⟨inside, free⟩ := Pmm.findFree_spec found
    exact ⟨page, inside, free, rfl, rfl⟩

def pmmFreePage (physAddr : Nat) (k : Machine) : Except Panic Machine :=
  if physAddr % pageSize ≠ 0 then .error .freeUnalignedPage
  else if k.pmm.maxPageIndex ≤ physAddr / pageSize then .error .freeOutOfRangePage
  else .ok { k with pmm := k.pmm.release (physAddr / pageSize) }

theorem pmmFreePage_eq (inside : page < k.pmm.maxPageIndex) :
    pmmFreePage (page * pageSize) k = .ok { k with pmm := k.pmm.release page } := by
  have exact_ : page * pageSize / pageSize = page := Nat.mul_div_cancel page (by decide)
  unfold pmmFreePage
  rw [exact_, if_neg (by simp), if_neg (Nat.not_le.mpr inside)]

end TangPingOS
