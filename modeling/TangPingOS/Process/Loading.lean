import TangPingOS.Memory.FreshPages
import TangPingOS.Process.Elf

/-! # What the ELF loader makes of a program

`map_elf_segment` copies a segment page by page into pages of its own. The memory of the
program is then that of its segments laid one over the other, in the order of the program headers
and in whole pages: a later segment hides what an earlier one had on the same page.
-/

namespace TangPingOS

open Lib

def ptLoads (image : Bytes) : List Elf64Phdr := (programHeaders image).filter fun phdr => decide (phdr.type = 1)

/-- Byte `i` of a segment: from the file, or zero behind the file's part. -/
def loadedByte (image : Bytes) (phdr : Elf64Phdr) (i : Nat) : UInt8 :=
  if i < phdr.filesz then image.getD (phdr.offset + i) 0 else 0

def segmentByte (image : Bytes) (phdr : Elf64Phdr) (addr : Nat) : UInt8 :=
  if phdr.vaddr ≤ addr then loadedByte image phdr (addr - phdr.vaddr) else 0

def Elf64Phdr.Covers (phdr : Elf64Phdr) (addr : Nat) : Prop :=
  phdr.memsz ≠ 0 ∧ segmentStart phdr ≤ addr ∧ addr < segmentEnd phdr

instance (phdr : Elf64Phdr) (addr : Nat) : Decidable (phdr.Covers addr) := inferInstanceAs (Decidable (_ ∧ _))

theorem alignUp_page (small : value ≤ userAddressMax) : alignUp value pageSize = (value + 4095) / 4096 * 4096 := by
  have exact_ : wrap64 (value + pageSize - 1) = value + 4095 := by
    simp only [userAddressMax, pageSize] at *
    exact Nat.mod_eq_of_lt (by omega)
  rw [alignUp, exact_]
  rfl

/-- A segment that has passed the checks. -/
structure SegmentOk (imageSize : Nat) (phdr : Elf64Phdr) : Prop where
  filesz : phdr.filesz ≤ phdr.memsz
  file : phdr.offset + phdr.filesz ≤ imageSize
  low : userAddressMin ≤ phdr.vaddr
  high : phdr.vaddr + phdr.memsz ≤ userAddressMax
  stack : ¬ (segmentStart phdr < userStackTop ∧ userStackTop - userStackSize < segmentEnd phdr)

theorem checkElfSegment_ok (some_ : phdr.memsz ≠ 0)
    (passed : checkElfSegment imageSize phdr = .ok ()) : SegmentOk imageSize phdr := by
  unfold checkElfSegment at passed
  split at passed
  · cases passed
  split at passed
  · cases passed
  split at passed
  · cases passed
  rename_i range
  split at passed
  · cases passed
  split at passed
  · cases passed
  rename_i stack
  rw [Bool.not_eq_true', Bool.not_eq_false, userRangeValid, if_neg some_] at range
  split at range
  · cases range
  have fits := of_decide_eq_true range
  refine ⟨by omega, by omega, by omega, by omega, ?_⟩
  simpa [rangeOverlapsStack] using stack

theorem segment_pages (ok : SegmentOk imageSize phdr) :
    segmentStart phdr % pageSize = 0 ∧ segmentStart phdr ≤ phdr.vaddr ∧ phdr.vaddr < segmentStart phdr + pageSize ∧
      segmentStart phdr + (segmentEnd phdr - segmentStart phdr) / pageSize * pageSize = segmentEnd phdr ∧
      phdr.vaddr + phdr.memsz ≤ segmentEnd phdr ∧ segmentEnd phdr ≤ userAddressMax := by
  have high := ok.high
  have ends : segmentEnd phdr = (phdr.vaddr + phdr.memsz + 4095) / 4096 * 4096 := alignUp_page high
  have starts : segmentStart phdr = phdr.vaddr / 4096 * 4096 := rfl
  simp only [userAddressMax, pageSize] at *
  omega

theorem byteAt_takePage {k : Machine} (inside : page < k.pmm.maxPageIndex) (low : i < pageSize) :
    (k.takePage page inside).byteAt (page * pageSize + i) = 0 := by
  have place : (page * pageSize + i) / pageSize = page := by
    unfold pageSize at *
    omega
  simp [Machine.byteAt, place, Machine.takePage, Machine.zeroPage]

theorem segmentVmmFlags_ok (phdr : Elf64Phdr) :
    IsVmmFlags (segmentVmmFlags phdr) ∧ anyBit (segmentVmmFlags phdr) vmmFlagUser := by
  unfold segmentVmmFlags
  split <;> split <;> decide

section Page

variable {k : Machine} {image : Bytes} {phdr : Elf64Phdr} {page p : Nat}

theorem onlyPage_segmentBytes (reached : phdr.vaddr < page + pageSize) :
    Machine.OnlyPage p k (k.copyIn (p * pageSize + (segmentBytes image phdr page).1) (segmentBytes image phdr page).2) := by
  apply k.onlyPage_copyIn (Nat.le_add_right _ _)
  simp only [segmentBytes, List.length_take]
  omega

theorem byteAt_segmentBytes (inside : p < k.pmm.maxPageIndex) (low : i < pageSize) :
    ((k.takePage p inside).copyIn (p * pageSize + (segmentBytes image phdr page).1)
      (segmentBytes image phdr page).2).byteAt (p * pageSize + i) = segmentByte image phdr (page + i) := by
  rw [Machine.byteAt_copyIn, byteAt_takePage inside low]
  simp only [segmentBytes, List.length_take, List.length_drop, List.getD_eq_getElem?_getD]
  by_cases within : phdr.vaddr ≤ page + i ∧ page + i - phdr.vaddr < phdr.filesz
  · have index : phdr.offset + (max page phdr.vaddr - phdr.vaddr) + (i - (max page phdr.vaddr - page))
        = phdr.offset + (page + i - phdr.vaddr) := by omega
    rw [segmentByte, if_pos within.1, loadedByte, if_pos within.2, List.getD_eq_getElem?_getD, ← index]
    split
    · have offset : p * pageSize + i - (p * pageSize + (max page phdr.vaddr - page))
          = i - (max page phdr.vaddr - page) := by omega
      rw [offset, List.getElem?_take_of_lt (by omega), List.getElem?_drop]
    · -- the file ends before this byte
      rw [List.getElem?_eq_none (by omega)]
      rfl
  · have nothing : segmentByte image phdr (page + i) = 0 := by
      unfold segmentByte loadedByte
      split
      · rw [if_neg (by omega)]
      · rfl
    rw [nothing, if_neg (by omega)]

end Page

section Segment

variable {roots : Nat → Prop} {k k' : Machine} {r page count : Nat} {image : Bytes} {phdr : Elf64Phdr}

theorem mapSegmentPages_spec (filled : Filled roots k) (root : roots r) (aligned : page % pageSize = 0)
    (reached : phdr.vaddr < page + pageSize) (bound : page + count * pageSize ≤ userVirtMax)
    (ran : mapSegmentPages (r * pageSize) image phdr count page k = .ok k') :
    Filled roots k' ∧ ∀ addr < userVirtMax, k'.cell r addr =
      if page ≤ addr ∧ addr < page + count * pageSize then some (segmentByte image phdr addr) else k.cell r addr := by
  induction count generalizing page k with
  | zero =>
    cases ran
    refine ⟨filled, fun addr _ => ?_⟩
    rw [if_neg (by omega)]
  | succ count ih =>
    rw [Nat.succ_mul] at bound
    have low : page < userVirtMax := by
      unfold pageSize at bound
      omega
    obtain ⟨⟨phys, k₁⟩, allocated, ran⟩ := bind_eq_ok ran
    obtain ⟨⟨mapped, k₂⟩, ranMap, ran⟩ := bind_eq_ok ran
    obtain ⟨p, inside, free, rfl, rfl⟩ := pmmAllocPage_ok allocated
    have written : Machine.OnlyPage (p * pageSize / pageSize) (k.takePage p inside)
        ((k.takePage p inside).copyIn (p * pageSize + (segmentBytes image phdr page).1)
          (segmentBytes image phdr page).2) := by
      rw [Nat.mul_div_cancel p (by decide)]
      exact onlyPage_segmentBytes reached
    obtain ⟨isFlags, user⟩ := segmentVmmFlags_ok phdr
    obtain ⟨rfl, added⟩ := filled.add root low aligned isFlags user allocated written ranMap
    obtain ⟨filled', cells⟩ := ih added.filled (by unfold pageSize at *; omega) (by omega) (by omega) ran
    refine ⟨filled', fun addr lowA => ?_⟩
    rw [cells addr lowA, added.cell r addr root lowA, byteAt_segmentBytes inside (Nat.mod_lt addr (by decide))]
    have here : addr / pageSize = page / pageSize ↔ page ≤ addr ∧ addr < page + pageSize := by
      unfold pageSize at *
      omega
    rw [Nat.succ_mul]
    by_cases first : page ≤ addr ∧ addr < page + pageSize
    · have place : page + addr % pageSize = addr := by
        unfold pageSize at *
        omega
      rw [if_neg (by omega), if_pos ⟨rfl, here.mpr first⟩, if_pos (by omega), place]
    · by_cases later : page + pageSize ≤ addr ∧ addr < page + pageSize + count * pageSize
      · rw [if_pos later, if_pos (by omega)]
      · rw [if_neg later, if_neg (fun both => first (here.mp both.2)), if_neg (by omega)]

theorem mapElfSegment_spec (filled : Filled roots k) (root : roots r)
    (ran : mapElfSegment (r * pageSize) image phdr k = .ok k') :
    (phdr.memsz ≠ 0 → SegmentOk image.length phdr) ∧ Filled roots k' ∧ ∀ addr < userVirtMax, k'.cell r addr =
      if phdr.Covers addr then some (segmentByte image phdr addr) else k.cell r addr := by
  unfold mapElfSegment at ran
  split at ran
  · rename_i none_
    cases ran
    refine ⟨fun some_ => absurd none_ some_, filled, fun addr _ => ?_⟩
    rw [if_neg fun covers => covers.1 none_]
  · rename_i some_
    obtain ⟨_, passed, ran⟩ := bind_eq_ok ran
    have ok := checkElfSegment_ok some_ passed
    obtain ⟨aligned, -, reached, ends, -, bound⟩ := segment_pages ok
    obtain ⟨filled', cells⟩ := mapSegmentPages_spec filled root aligned reached (by rw [ends]; exact bound) ran
    refine ⟨fun _ => ok, filled', fun addr low => ?_⟩
    rw [cells addr low, ends]
    simp [Elf64Phdr.Covers, some_]

end Segment

/-- What is at an address once the segments lie over what was there. -/
def laid (image : Bytes) (addr : Nat) : List Elf64Phdr → Option UInt8 → Option UInt8
  | [], below => below
  | phdr :: rest, below => laid image addr rest (if phdr.Covers addr then some (segmentByte image phdr addr) else below)

section Program

variable {roots : Nat → Prop} {k k' : Machine} {r imageEnd imageEnd' : Nat} {image : Bytes} {phdrs : List Elf64Phdr}

theorem loadSegments_spec (filled : Filled roots k) (root : roots r)
    (ran : loadSegments (r * pageSize) image phdrs imageEnd k = .ok (imageEnd', k')) :
    (∀ phdr ∈ phdrs.filter (fun phdr => decide (phdr.type = 1)), phdr.memsz ≠ 0 → SegmentOk image.length phdr) ∧
      Filled roots k' ∧ ∀ addr < userVirtMax, k'.cell r addr =
        laid image addr (phdrs.filter fun phdr => decide (phdr.type = 1)) (k.cell r addr) := by
  induction phdrs generalizing imageEnd k with
  | nil =>
    cases ran
    exact ⟨nofun, filled, fun _ _ => rfl⟩
  | cons phdr rest ih =>
    rw [loadSegments] at ran
    by_cases loads : phdr.type = 1
    · rw [if_pos loads] at ran
      obtain ⟨k₁, ranOne, ran⟩ := bind_eq_ok ran
      obtain ⟨ok, filled₁, cells₁⟩ := mapElfSegment_spec filled root ranOne
      obtain ⟨oks, filled', cells⟩ := ih filled₁ ran
      rw [List.filter_cons_of_pos (by simpa using loads)]
      refine ⟨List.forall_mem_cons.mpr ⟨ok, oks⟩, filled', fun addr low => ?_⟩
      rw [cells addr low, cells₁ addr low, laid]
    · rw [if_neg loads] at ran
      rw [List.filter_cons_of_neg (by simpa using loads)]
      exact ih filled ran

theorem loadElfImage_spec (filled : Filled roots k) (root : roots r)
    (ran : loadElfImage image (r * pageSize) k = .ok (loaded, k')) :
    (∀ phdr ∈ ptLoads image, phdr.memsz ≠ 0 → SegmentOk image.length phdr) ∧ Filled roots k' ∧
      ∀ addr < userVirtMax, k'.cell r addr = laid image addr (ptLoads image) (k.cell r addr) := by
  obtain ⟨_, -, ran⟩ := bind_eq_ok ran
  obtain ⟨⟨imageEnd, k₁⟩, ranAll, ran⟩ := bind_eq_ok ran
  have same : k₁ = k' := congrArg Prod.snd (Except.ok.inj ran)
  subst same
  exact loadSegments_spec filled root ranAll

end Program

section Faithful

variable {image : Bytes} {phdrs : List Elf64Phdr} {a b : Elf64Phdr} {n i : Nat}

def SegmentsApart (a b : Elf64Phdr) : Prop := ∀ i < a.memsz, ∀ j < b.memsz, a.vaddr + i ≠ b.vaddr + j

/-- The later segment's pages hide nothing of the earlier one but zeros. -/
def HidesNothing (image : Bytes) (a b : Elf64Phdr) : Prop :=
  ∀ i < a.memsz, b.Covers (a.vaddr + i) → loadedByte image a i = 0

theorem segmentByte_own : segmentByte image a (a.vaddr + i) = loadedByte image a i := by
  rw [segmentByte, if_pos (Nat.le_add_right _ _), Nat.add_sub_cancel_left]

theorem covers_own (ok : a.memsz ≠ 0 → SegmentOk n a) (low : i < a.memsz) : a.Covers (a.vaddr + i) := by
  have some_ : a.memsz ≠ 0 := by omega
  obtain ⟨-, starts, -, -, ends, -⟩ := segment_pages (ok some_)
  exact ⟨some_, by omega, by omega⟩

theorem segmentByte_apart (ok : b.memsz ≠ 0 → SegmentOk n b) (apart : SegmentsApart a b) (low : i < a.memsz)
    (covers : b.Covers (a.vaddr + i)) : segmentByte image b (a.vaddr + i) = 0 := by
  have filesz := (ok covers.1).filesz
  unfold segmentByte loadedByte
  split
  · rw [if_neg]
    intro inside
    exact apart i low (a.vaddr + i - b.vaddr) (by omega) (by omega)
  · rfl

theorem laid_zeros (zeros : ∀ b ∈ phdrs, b.Covers addr → segmentByte image b addr = 0) :
    laid image addr phdrs (some v) = some v ↔ ((∃ b ∈ phdrs, b.Covers addr) → v = 0) := by
  have value : laid image addr phdrs (some v) = some (if ∃ b ∈ phdrs, b.Covers addr then 0 else v) := by
    induction phdrs generalizing v with
    | nil => simp [laid]
    | cons phdr rest ih =>
      rw [List.forall_mem_cons] at zeros
      rw [laid]
      by_cases covers : phdr.Covers addr
      · rw [if_pos covers, zeros.1 covers, ih zeros.2]
        simp [covers]
      · rw [if_neg covers, ih zeros.2]
        simp [covers]
  rw [value, Option.some.injEq]
  split
  · rename_i covered
    exact ⟨fun same _ => same.symm, fun zero => (zero covered).symm⟩
  · rename_i free
    exact ⟨fun _ covered => absurd covered free, fun _ => rfl⟩

/-- Every byte of every segment is on top if no later segment hides more than zeros. -/
theorem laid_iff (below : Nat → Option UInt8) (oks : ∀ phdr ∈ phdrs, phdr.memsz ≠ 0 → SegmentOk n phdr)
    (apart : phdrs.Pairwise SegmentsApart) :
    (∀ phdr ∈ phdrs, ∀ i < phdr.memsz,
      laid image (phdr.vaddr + i) phdrs (below (phdr.vaddr + i)) = some (loadedByte image phdr i)) ↔
      phdrs.Pairwise (HidesNothing image) := by
  induction phdrs generalizing below with
  | nil => simp
  | cons a rest ih =>
    rw [List.forall_mem_cons] at oks
    rw [List.pairwise_cons] at apart
    rw [List.forall_mem_cons, List.pairwise_cons]
    apply and_congr
    · have one (i : Nat) (low : i < a.memsz) :
          laid image (a.vaddr + i) (a :: rest) (below (a.vaddr + i)) = some (loadedByte image a i) ↔
            ((∃ b ∈ rest, b.Covers (a.vaddr + i)) → loadedByte image a i = 0) := by
        rw [laid, if_pos (covers_own oks.1 low), segmentByte_own]
        exact laid_zeros fun b member covers => segmentByte_apart (oks.2 b member) (apart.1 b member) low covers
      constructor
      · intro faithful b member i low covers
        exact (one i low).mp (faithful i low) ⟨b, member, covers⟩
      · intro hides i low
        apply (one i low).mpr
        rintro ⟨b, member, covers⟩
        exact hides b member i low covers
    · exact ih (fun addr => if a.Covers addr then some (segmentByte image a addr) else below addr) oks.2 apart.2

end Faithful

/-- An image with disjoint segments is loaded faithfully if no segment has a byte other than zero on a page that a
    later segment occupies too, and only then. -/
theorem loadElfImage_faithful_iff {k₀ k k' : Machine} {cr3Phys : Nat} {image : Bytes} {loaded : UserImage}
    (created : vmmCreateAddressSpace k₀ = .ok (cr3Phys, k)) (ran : loadElfImage image cr3Phys k = .ok (loaded, k'))
    (apart : (ptLoads image).Pairwise SegmentsApart) :
    (∀ phdr ∈ ptLoads image, ∀ i < phdr.memsz, ∃ phys,
      vmmTranslateUserAddr cr3Phys (phdr.vaddr + i) false k' = some phys ∧ k'.byteAt phys = loadedByte image phdr i) ↔
      (ptLoads image).Pairwise (HidesNothing image) := by
  obtain ⟨r, -, -, rfl, -⟩ := vmmCreateAddressSpace_ok created
  obtain ⟨filled, -⟩ := Filled.empty.create created
  obtain ⟨oks, filled', cells⟩ := loadElfImage_spec filled (.inr rfl) ran
  rw [← laid_iff (k.cell r) oks apart]
  apply forall₂_congr
  intro phdr member
  apply forall₂_congr
  intro i low
  have high := (oks phdr member (by omega)).high
  have inside := Nat.lt_of_lt_of_le (Nat.add_lt_add_left low _) high
  rw [← filled'.cell_eq_some (.inr rfl) inside, cells _ inside]

/-- The bytes of a file with the given program headers and nothing else. -/
def elfFile (phdrs : List Elf64Phdr) : Bytes :=
  [0x7f, 0x45, 0x4c, 0x46, 2, 1, 1] ++ List.replicate 9 0 ++ le16 2 ++ le16 62 ++ le32 1 ++ le64 userAddressMin ++
    le64 64 ++ le64 0 ++ le32 0 ++ le16 64 ++ le16 56 ++ le16 phdrs.length ++ le16 0 ++ le16 0 ++ le16 0 ++
    phdrs.flatMap fun phdr => le32 phdr.type ++ le32 phdr.flags ++ le64 phdr.offset ++ le64 phdr.vaddr ++ le64 0 ++
      le64 phdr.filesz ++ le64 phdr.memsz ++ le64 0

/-- Two segments of sixteen bytes each, the first of them the beginning of the file; `second` is where the other
    one goes. -/
def twoSegments (second : Nat) : Bytes :=
  elfFile [⟨1, 4, 0, 0x10000, 16, 16⟩, ⟨1, 4, 64, second, 16, 16⟩]

def loadFresh (image : Bytes) : Except Panic (Nat × Machine × UserImage × Machine) := do
  let (cr3Phys, k) ← vmmCreateAddressSpace (memoryInit smallMemmap blankMachine)
  let (loaded, k') ← loadElfImage image cr3Phys k
  return (cr3Phys, k, loaded, k')

instance : DecidableRel SegmentsApart := fun a b =>
  inferInstanceAs (Decidable (∀ i < a.memsz, ∀ j < b.memsz, a.vaddr + i ≠ b.vaddr + j))

instance (image : Bytes) : DecidableRel (HidesNothing image) := fun a b =>
  inferInstanceAs (Decidable (∀ i < a.memsz, b.Covers (a.vaddr + i) → loadedByte image a i = 0))

theorem loadFresh_ok (ran : loadFresh image = .ok (cr3Phys, k, loaded, k')) :
    vmmCreateAddressSpace (memoryInit smallMemmap blankMachine) = .ok (cr3Phys, k) ∧
      loadElfImage image cr3Phys k = .ok (loaded, k') := by
  obtain ⟨⟨cr3Phys, k⟩, created, ran⟩ := bind_eq_ok ran
  obtain ⟨⟨loaded, k'⟩, isLoaded, last⟩ := bind_eq_ok ran
  cases last
  exact ⟨created, isLoaded⟩

/-- Segments on pages of their own. -/
theorem loadElfImage_faithful_apart : ∃ cr3Phys k loaded k', loadFresh (twoSegments 0x20040) = .ok
    (cr3Phys, k, loaded, k') ∧
    ∀ phdr ∈ ptLoads (twoSegments 0x20040), ∀ i < phdr.memsz, ∃ phys,
      vmmTranslateUserAddr cr3Phys (phdr.vaddr + i) false k' = some phys ∧
        k'.byteAt phys = loadedByte (twoSegments 0x20040) phdr i := by
  have ok : (loadFresh (twoSegments 0x20040)).toOption.map (fun _ => ()) = some () := by decide +kernel
  obtain ⟨⟨cr3Phys, k, loaded, k'⟩, ran, -⟩ := exists_ok ok
  obtain ⟨created, isLoaded⟩ := loadFresh_ok ran
  refine ⟨cr3Phys, k, loaded, k', ran, ?_⟩
  exact (loadElfImage_faithful_iff created isLoaded (by decide +kernel)).mpr (by decide +kernel)

/-- The second segment is on the page of the first, which then starts with a zero where the file has 0x7f. -/
theorem shared_page_lost : ∃ cr3Phys k loaded k' phys,
    loadFresh (twoSegments 0x10040) = .ok (cr3Phys, k, loaded, k') ∧
    (ptLoads (twoSegments 0x10040)).Pairwise SegmentsApart ∧
    vmmTranslateUserAddr cr3Phys 0x10000 false k' = some phys ∧ k'.byteAt phys = 0 ∧
    ∃ phdr ∈ ptLoads (twoSegments 0x10040), phdr.vaddr = 0x10000 ∧ 0 < phdr.memsz ∧
      loadedByte (twoSegments 0x10040) phdr 0 = 0x7f := by
  have facts : (loadFresh (twoSegments 0x10040)).toOption.map (fun (cr3Phys, _, _, k') =>
      (vmmTranslateUserAddr cr3Phys 0x10000 false k').map k'.byteAt) = some (some 0) := by decide +kernel
  obtain ⟨⟨cr3Phys, k, loaded, k'⟩, ran, outcome⟩ := exists_ok facts
  obtain ⟨phys, found, zero⟩ := Option.map_eq_some_iff.mp outcome
  exact ⟨cr3Phys, k, loaded, k', phys, ran, by decide +kernel, found, zero, by decide +kernel⟩

end TangPingOS
