import TangPingOS.Process.Loading

/-! # What the ELF loader reads and maps

The loader once more, as its source has it, but watched: it stops when it reads a byte outside
the image, or maps a page that is not the program's to have. The watched loader does what the
loader does, so it is never stopped, whatever the image is.
-/

namespace TangPingOS

open Lib

/-- The ends of a watched run: a panic of the loader itself, or what it must not do. -/
inductive LoadFault where
  | panic (panic : Panic)
  | readOutside
  | mapOutside

def watch {α : Type} (x : Except Panic α) : Except LoadFault α := x.mapError .panic

@[simp] theorem watch_ok (a : α) : watch (.ok a) = .ok a := rfl

@[simp] theorem watch_error : watch (.error e : Except Panic α) = .error (.panic e) := rfl

theorem watch_ite (c : Prop) [Decidable c] (x y : Except Panic α) :
    watch (if c then x else y) = if c then watch x else watch y := by
  split <;> rfl

@[simp] theorem ok_then {ε α β : Type} (a : α) (f : α → Except ε β) : (Except.ok a >>= f) = f a := rfl

theorem watch_bind (f : α → Except Panic β) : watch (x >>= f) = watch x >>= fun a => watch (f a) := by
  cases x <;> rfl

/-- The bytes `off .. off + len` of the image are read. -/
def reads (image : Bytes) (off len : Nat) : Except LoadFault Unit :=
  if off + len ≤ image.length then .ok () else .error .readOutside

/-- The pages a program may have: in the user's half above the first sixty-four kilobytes, and not in the stack. -/
def MayMap (page : Nat) : Prop :=
  alignDown userAddressMin pageSize ≤ page ∧ page + pageSize ≤ userAddressMax ∧
    (page + pageSize ≤ userStackTop - userStackSize ∨ userStackTop ≤ page)

instance : DecidablePred MayMap := fun _ => inferInstanceAs (Decidable (_ ∧ _))

def maps (page : Nat) : Except LoadFault Unit := if MayMap page then .ok () else .error .mapOutside

theorem reads_inside (inside : off + len ≤ image.length) :
    reads image off len = .ok () := if_pos inside

/-- `validate_elf_header`. -/
def watchedElfHeader (image : Bytes) : Except LoadFault Unit := do
  let ehdr := readEhdr image
  if image.length < 64 then .error (.panic .moduleTooSmallForElfHeader)
  else do
    reads image 0 4
    if ehdr.ident.take 4 ≠ [0x7f, 0x45, 0x4c, 0x46] then .error (.panic .moduleNotElf)
    else do
      reads image 4 3
      if ehdr.ident.getD 4 0 ≠ 2 ∨ ehdr.ident.getD 5 0 ≠ 1 ∨ ehdr.ident.getD 6 0 ≠ 1 then
        .error (.panic .unsupportedElfFormat)
      else do
        reads image 16 8
        if ehdr.type ≠ 2 ∨ ehdr.machine ≠ 62 ∨ ehdr.version ≠ 1 then .error (.panic .elfNotX8664Executable)
        else do
          reads image 52 6
          if ehdr.ehsize ≠ 64 ∨ ehdr.phentsize ≠ 56 ∨ ehdr.phnum = 0 then
            .error (.panic .invalidElfProgramHeaderTable)
          else do
            reads image 32 8
            if image.length < ehdr.phoff ∨ image.length - ehdr.phoff < ehdr.phentsize * ehdr.phnum then
              .error (.panic .elfProgramHeadersOutOfRange)
            else do
              reads image 24 8
              if !userRangeValid ehdr.entry 1 then .error (.panic .elfEntryOutsideUserspace)
              else .ok ()

section

variable (cr3Phys : Nat) (image : Bytes)

/-- The loop of `map_elf_segment`. -/
def watchedSegmentPages (phdr : Elf64Phdr) :
    Nat → Nat → Machine → Except LoadFault Machine
  | 0, _, k => .ok k
  | count + 1, page, k => do
    let (phys, k) ← watch (pmmAllocPage k)
    let copyStart := max page phdr.vaddr
    let copyEnd := min (page + pageSize) (phdr.vaddr + phdr.filesz)
    if copyStart < copyEnd then
      reads image (phdr.offset + (copyStart - phdr.vaddr)) (copyEnd - copyStart)
    let (offset, bytes) := segmentBytes image phdr page
    maps page
    let (mapped, k) ← watch (vmmMapPageIn cr3Phys page phys (segmentVmmFlags phdr)
      (k.copyIn (phys + offset) bytes))
    if mapped then watchedSegmentPages phdr count (page + pageSize) k
    else .error (.panic .mapElfSegmentPage)

/-- `map_elf_segment`, for the program header at `off`. -/
def watchedElfSegment (off : Nat) (k : Machine) : Except LoadFault Machine := do
  let phdr := readPhdr image off
  reads image (off + 40) 8
  if phdr.memsz = 0 then .ok k
  else do
    reads image (off + 32) 8
    reads image (off + 8) 8
    reads image (off + 16) 8
    watch (checkElfSegment image.length phdr)
    reads image (off + 4) 4
    watchedSegmentPages cr3Phys image phdr ((segmentEnd phdr - segmentStart phdr) / pageSize)
      (segmentStart phdr) k

/-- The loop of `load_elf_image`, over the places of the program headers. -/
def watchedSegments :
    List Nat → Nat → Machine → Except LoadFault (Nat × Machine)
  | [], imageEnd, k => .ok (imageEnd, k)
  | off :: rest, imageEnd, k => do
    reads image off 4
    if (readPhdr image off).type = 1 then do
      let k ← watchedElfSegment cr3Phys image off k
      reads image (off + 16) 8
      reads image (off + 40) 8
      watchedSegments rest
        (max imageEnd (wrap64 ((readPhdr image off).vaddr + (readPhdr image off).memsz))) k
    else watchedSegments rest imageEnd k

end

/-- `load_elf_image`. -/
def watchedElfImage (image : Bytes) (cr3Phys : Nat) (k : Machine) : Except LoadFault (UserImage × Machine) := do
  watchedElfHeader image
  let ehdr := readEhdr image
  let (imageEnd, k) ← watchedSegments cr3Phys image
    ((List.range ehdr.phnum).map fun i => ehdr.phoff + i * 56) 0 k
  return ({ entry := ehdr.entry, brkStart := alignUp imageEnd pageSize }, k)

section Watched

variable {image : Bytes} {phdr : Elf64Phdr} {cr3Phys : Nat} {k : Machine}

theorem watchedElfHeader_eq : watchedElfHeader image = watch (validateElfHeader image) := by
  unfold watchedElfHeader validateElfHeader
  simp only [watch_ite, watch_error, watch_ok]
  split
  · rfl
  · have inside {off len : Nat} (low : off + len ≤ 64) : reads image off len = .ok () := reads_inside (by omega)
    rw [inside (by decide), inside (by decide), inside (by decide), inside (by decide), inside (by decide),
      inside (by decide)]
    simp

/-- The header table of an accepted file is inside the file. -/
theorem headers_inside (valid : validateElfHeader image = .ok ()) (low : i < (readEhdr image).phnum) :
    (readEhdr image).phoff + i * 56 + 56 ≤ image.length := by
  unfold validateElfHeader at valid
  dsimp only at valid
  split at valid
  · cases valid
  split at valid
  · cases valid
  split at valid
  · cases valid
  split at valid
  · cases valid
  split at valid
  · cases valid
  split at valid
  · cases valid
  rename_i range
  have size : (readEhdr image).phentsize = 56 := by omega
  rw [size] at range
  omega

/-- The pages of a segment may be mapped, and what they are filled with is in the file. -/
theorem watchedSegmentPages_eq (ok : SegmentOk image.length phdr)
    (starts : segmentStart phdr ≤ page) (ends : page + count * pageSize ≤ segmentEnd phdr) :
    watchedSegmentPages cr3Phys image phdr count page k = watch (mapSegmentPages cr3Phys image phdr count page k) := by
  induction count generalizing page k with
  | zero => rfl
  | succ count ih =>
    rw [Nat.succ_mul] at ends
    have mapped : maps page = .ok () := by
      obtain ⟨-, below, near, -, -, top⟩ := segment_pages ok
      have low := ok.low
      have stack := ok.stack
      have lower : alignDown userAddressMin pageSize ≤ segmentStart phdr := Nat.mul_le_mul_right _ (Nat.div_le_div_right low)
      apply if_pos
      refine ⟨by omega, by omega, ?_⟩
      omega
    have file := ok.file
    have copied (some_ : max page phdr.vaddr < min (page + pageSize) (phdr.vaddr + phdr.filesz)) :
        reads image (phdr.offset + (max page phdr.vaddr - phdr.vaddr))
          (min (page + pageSize) (phdr.vaddr + phdr.filesz) - max page phdr.vaddr) = .ok () :=
      reads_inside (by omega)
    have rest (a : Bool × Machine) :
        (if a.1 then watchedSegmentPages cr3Phys image phdr count (page + pageSize) a.2
          else .error (.panic .mapElfSegmentPage)) =
        watch (if a.1 then mapSegmentPages cr3Phys image phdr count (page + pageSize) a.2
          else .error .mapElfSegmentPage) := by
      rw [watch_ite, watch_error, ih (by omega) (by omega)]
    rw [watchedSegmentPages, mapSegmentPages]
    cases pmmAllocPage k with
    | error e => rfl
    | ok taken =>
      simp only [watch_ok, ok_then, mapped, watch_bind, rest]
      split
      · rename_i some_
        rw [copied some_, ok_then]
      · rfl

theorem watchedElfSegment_eq (inside : off + 56 ≤ image.length) :
    watchedElfSegment cr3Phys image off k = watch (mapElfSegment cr3Phys image (readPhdr image off) k) := by
  have field {at_ len : Nat} (low : at_ + len ≤ 56) : reads image (off + at_) len = .ok () := reads_inside (by omega)
  unfold watchedElfSegment mapElfSegment
  rw [field (by decide), field (by decide), field (by decide), field (by decide), field (by decide)]
  simp only
  split
  · rfl
  · rename_i some_
    cases passed : checkElfSegment image.length (readPhdr image off) with
    | error e => rfl
    | ok _ =>
      have ok := checkElfSegment_ok some_ passed
      obtain ⟨-, -, -, ends, -, -⟩ := segment_pages ok
      exact watchedSegmentPages_eq ok (Nat.le_refl _) (Nat.le_of_eq ends)

theorem watchedSegments_eq (inside : ∀ off ∈ offs, off + 56 ≤ image.length) :
    watchedSegments cr3Phys image offs imageEnd k
      = watch (loadSegments cr3Phys image (offs.map (readPhdr image)) imageEnd k) := by
  induction offs generalizing imageEnd k with
  | nil => rfl
  | cons off rest ih =>
    rw [List.forall_mem_cons] at inside
    have field {at_ len : Nat} (low : at_ + len ≤ 56) : reads image (off + at_) len = .ok () :=
      reads_inside (by omega)
    have type : reads image off 4 = .ok () := reads_inside (by omega)
    rw [List.map_cons, watchedSegments, loadSegments, type, field (by decide), field (by decide),
      watchedElfSegment_eq inside.1]
    simp [watch_ite, watch_bind, ih inside.2]

end Watched

theorem watchedElfImage_eq : watchedElfImage image cr3Phys k = watch (loadElfImage image cr3Phys k) := by
  unfold watchedElfImage loadElfImage
  rw [watchedElfHeader_eq]
  cases valid : validateElfHeader image with
  | error e => rfl
  | ok _ =>
    have inside : ∀ off ∈ (List.range (readEhdr image).phnum).map (fun i => (readEhdr image).phoff + i * 56),
        off + 56 ≤ image.length := by
      intro off member
      obtain ⟨i, low, rfl⟩ := List.mem_map.mp member
      exact headers_inside valid (List.mem_range.mp low)
    have headers : ((List.range (readEhdr image).phnum).map fun i => (readEhdr image).phoff + i * 56).map
        (readPhdr image) = programHeaders image := by
      rw [List.map_map]
      rfl
    simp only [watch_ok, watch_bind, watchedSegments_eq inside, headers]
    rfl

/-- Whatever the image is, the loader reads nothing outside it and maps only pages that a program may have: watched,
    it does the same and is not stopped. -/
theorem loader_stays_inside (image : Bytes) (cr3Phys : Nat) (k : Machine) :
    watchedElfImage image cr3Phys k = watch (loadElfImage image cr3Phys k) ∧
      watchedElfImage image cr3Phys k ≠ .error .readOutside ∧ watchedElfImage image cr3Phys k ≠ .error .mapOutside := by
  rw [watchedElfImage_eq]
  refine ⟨rfl, ?_, ?_⟩ <;> cases loadElfImage image cr3Phys k <;> simp

end TangPingOS
