import TangPingOS.Memory.Heap

/-! # Loading a program

The ELF loader of `kernel/user.c`: header checks, the page-by-page copy of the
loadable segments into a new address space, the user stack and the arguments on it.
A file is the list of its bytes. Header fields that the loader never looks at
(section headers, `p_paddr`, `p_align`) are left out.
-/

namespace TangPingOS

open Lib

def userAddressMin : Nat := 0x0000000000010000
def userAddressMax : Nat := 0x0000800000000000
def userStackTop : Nat := 0x0000400010000000
def userStackSize : Nat := 16 * pageSize
def userHeapSize : Nat := 16 * 1024 * 1024
def userSpawnImageMax : Nat := 1024 * 1024
def userArgvMax : Nat := 8
def userArgMax : Nat := 64

section

variable (image : Bytes)

/-- A little-endian field of `n` bytes. -/
def fieldAt (off : Nat) : Nat → Nat
  | 0 => 0
  | n + 1 => (image.getD off 0).toNat + 256 * fieldAt (off + 1) n

structure Elf64Ehdr where
  ident : Bytes
  type : Nat
  machine : Nat
  version : Nat
  entry : Nat
  phoff : Nat
  ehsize : Nat
  phentsize : Nat
  phnum : Nat

structure Elf64Phdr where
  type : Nat
  flags : Nat
  offset : Nat
  vaddr : Nat
  filesz : Nat
  memsz : Nat

def readEhdr : Elf64Ehdr where
  ident := image.take 16
  type := fieldAt image 16 2
  machine := fieldAt image 18 2
  version := fieldAt image 20 4
  entry := fieldAt image 24 8
  phoff := fieldAt image 32 8
  ehsize := fieldAt image 52 2
  phentsize := fieldAt image 54 2
  phnum := fieldAt image 56 2

def readPhdr (off : Nat) : Elf64Phdr where
  type := fieldAt image off 4
  flags := fieldAt image (off + 4) 4
  offset := fieldAt image (off + 8) 8
  vaddr := fieldAt image (off + 16) 8
  filesz := fieldAt image (off + 32) 8
  memsz := fieldAt image (off + 40) 8

def programHeaders : List Elf64Phdr :=
  (List.range (readEhdr image).phnum).map fun i => readPhdr image ((readEhdr image).phoff + i * 56)

def userRangeValid (start size : Nat) : Bool :=
  if size = 0 then true
  else if start < userAddressMin ∨ userAddressMax ≤ start then false
  else decide (size ≤ userAddressMax - start)

def rangeOverlapsStack (start rangeEnd : Nat) : Bool :=
  decide (start < userStackTop) && decide (userStackTop - userStackSize < rangeEnd)

def validateElfHeader : Except Panic Unit :=
  let ehdr := readEhdr image
  let phdrSize := ehdr.phentsize * ehdr.phnum
  if image.length < 64 then .error .moduleTooSmallForElfHeader
  else if ehdr.ident.take 4 ≠ [0x7f, 0x45, 0x4c, 0x46] then .error .moduleNotElf
  else if ehdr.ident.getD 4 0 ≠ 2 ∨ ehdr.ident.getD 5 0 ≠ 1 ∨ ehdr.ident.getD 6 0 ≠ 1 then
    .error .unsupportedElfFormat
  else if ehdr.type ≠ 2 ∨ ehdr.machine ≠ 62 ∨ ehdr.version ≠ 1 then .error .elfNotX8664Executable
  else if ehdr.ehsize ≠ 64 ∨ ehdr.phentsize ≠ 56 ∨ ehdr.phnum = 0 then
    .error .invalidElfProgramHeaderTable
  else if image.length < ehdr.phoff ∨ image.length - ehdr.phoff < phdrSize then
    .error .elfProgramHeadersOutOfRange
  else if !userRangeValid ehdr.entry 1 then .error .elfEntryOutsideUserspace
  else .ok ()

/-- `segment_vmm_flags`: bit 1 of `p_flags` is write, bit 0 execute. -/
def segmentVmmFlags (phdr : Elf64Phdr) : Nat :=
  vmmFlagUser ||| (if anyBit phdr.flags 2 then vmmFlagWritable else 0) |||
    (if anyBit phdr.flags 1 then 0 else vmmFlagNoExec)

/-- The bytes of the file that belong on the page at `page`, and where on it they start. -/
def segmentBytes (phdr : Elf64Phdr) (page : Nat) : Nat × Bytes :=
  let copyStart := max page phdr.vaddr
  let copyEnd := min (page + pageSize) (phdr.vaddr + phdr.filesz)
  (copyStart - page,
    (image.drop (phdr.offset + (copyStart - phdr.vaddr))).take (copyEnd - copyStart))

end

section

variable (cr3Phys : Nat) (image : Bytes)

/-- The loop of `map_elf_segment`, `count` pages from `page` on. -/
def mapSegmentPages (phdr : Elf64Phdr) :
    Nat → Nat → Machine → Except Panic Machine
  | 0, _, k => .ok k
  | count + 1, page, k => do
    let (phys, k) ← pmmAllocPage k
    let (offset, bytes) := segmentBytes image phdr page
    let (mapped, k) ← vmmMapPageIn cr3Phys page phys (segmentVmmFlags phdr)
      (k.copyIn (phys + offset) bytes)
    if mapped then mapSegmentPages phdr count (page + pageSize) k
    else .error .mapElfSegmentPage

def segmentStart (phdr : Elf64Phdr) : Nat := alignDown phdr.vaddr pageSize

def segmentEnd (phdr : Elf64Phdr) : Nat := alignUp (phdr.vaddr + phdr.memsz) pageSize

/-- The checks of `map_elf_segment`, in its order. -/
def checkElfSegment (imageSize : Nat) (phdr : Elf64Phdr) : Except Panic Unit :=
  if phdr.memsz < phdr.filesz then .error .segmentFileszExceedsMemsz
  else if imageSize < phdr.offset ∨ imageSize - phdr.offset < phdr.filesz then
    .error .segmentFileRangeOutOfBounds
  else if !userRangeValid phdr.vaddr phdr.memsz then .error .segmentOutsideUserspace
  else if phdr.vaddr % pageSize ≠ phdr.offset % pageSize then .error .segmentIncompatibleAlignment
  else if rangeOverlapsStack (segmentStart phdr) (segmentEnd phdr) then .error .segmentOverlapsUserStack
  else .ok ()

def mapElfSegment (phdr : Elf64Phdr) (k : Machine) : Except Panic Machine :=
  if phdr.memsz = 0 then .ok k
  else do
    checkElfSegment image.length phdr
    mapSegmentPages cr3Phys image phdr ((segmentEnd phdr - segmentStart phdr) / pageSize)
      (segmentStart phdr) k

/-- The loop over the program headers in `load_elf_image`. -/
def loadSegments :
    List Elf64Phdr → Nat → Machine → Except Panic (Nat × Machine)
  | [], imageEnd, k => .ok (imageEnd, k)
  | phdr :: rest, imageEnd, k =>
    if phdr.type = 1 then do
      let k ← mapElfSegment cr3Phys image phdr k
      loadSegments rest (max imageEnd (wrap64 (phdr.vaddr + phdr.memsz))) k
    else loadSegments rest imageEnd k

end

structure UserImage where
  entry : Nat
  brkStart : Nat

def loadElfImage (image : Bytes) (cr3Phys : Nat) (k : Machine) : Except Panic (UserImage × Machine) := do
  validateElfHeader image
  let (imageEnd, k) ← loadSegments cr3Phys image (programHeaders image) 0 k
  return ({ entry := (readEhdr image).entry, brkStart := alignUp imageEnd pageSize }, k)

/-- Map `count` fresh pages from `page` on; the loops of `map_user_stack` and of `brk`. -/
def mapFreshPages (cr3Phys flags : Nat) (panic : Panic) : Nat → Nat → Machine → Except Panic Machine
  | 0, _, k => .ok k
  | count + 1, page, k => do
    let (phys, k) ← pmmAllocPage k
    let (mapped, k) ← vmmMapPageIn cr3Phys page phys flags k
    if mapped then mapFreshPages cr3Phys flags panic count (page + pageSize) k else .error panic

def userDataFlags : Nat := vmmFlagWritable ||| vmmFlagUser ||| vmmFlagNoExec

def mapUserStack (cr3Phys : Nat) (k : Machine) : Except Panic Machine :=
  mapFreshPages cr3Phys userDataFlags .mapUserStack 16 (userStackTop - userStackSize) k

/-- The loop of `copy_to_user_in_space`; every round copies up to the end of a page. -/
def copyToUserPages (cr3Phys : Nat) : Nat → Nat → Bytes → Machine → Bool × Machine
  | _, _, [], k => (true, k)
  | 0, _, _ :: _, k => (false, k)
  | rounds + 1, addr, src, k =>
    match vmmTranslateUserAddr cr3Phys addr true k with
    | none => (false, k)
    | some phys =>
      let count := min (pageSize - addr % pageSize) src.length
      copyToUserPages cr3Phys rounds (addr + count) (src.drop count) (k.copyIn phys (src.take count))

/-- `copy_to_user_in_space`. The Boolean is false for the result -1. -/
def copyToUserInSpace (cr3Phys userDst : Nat) (src : Bytes) (k : Machine) : Bool × Machine :=
  if src.length = 0 then (true, k)
  else if !userRangeValid userDst src.length then (false, k)
  else copyToUserPages cr3Phys src.length userDst src k

/-- The loop of `parse_spawn_args`; every round reads one word. -/
def parseSpawnWords : Nat → List Bytes → Bytes → Option (List Bytes)
  | 0, _, _ => none
  | rounds + 1, values, p =>
    let p := p.dropWhile (· == 0x20)
    if p = [] then some values
    else if userArgvMax ≤ values.length then none
    else
      let word := p.takeWhile (· != 0x20)
      if userArgMax < word.length + 1 then none
      else parseSpawnWords rounds (values ++ [word]) (p.drop word.length)

def parseSpawnArgs (path args : Bytes) : Option (List Bytes) :=
  if userArgMax < path.length + 1 then none else parseSpawnWords (args.length + 1) [path] args

/-- The strings of the arguments, the last one first; their addresses in the order of the arguments. -/
def pushStrings (cr3Phys : Nat) : List Bytes → Nat → List Nat → Machine →
    Option (Nat × List Nat) × Machine
  | [], sp, ptrs, k => (some (sp, ptrs), k)
  | value :: rest, sp, ptrs, k =>
    let sp := sp - (value.length + 1)
    match copyToUserInSpace cr3Phys sp (value ++ [0]) k with
    | (false, k) => (none, k)
    | (true, k) => pushStrings cr3Phys rest sp (sp :: ptrs) k

def pushWords (cr3Phys : Nat) : List Nat → Nat → Machine → Option Nat × Machine
  | [], sp, k => (some sp, k)
  | word :: rest, sp, k =>
    match copyToUserInSpace cr3Phys (sp - 8) (le64 word) k with
    | (false, k) => (none, k)
    | (true, k) => pushWords cr3Phys rest (sp - 8) k

/-- Stack pointer, `argc` and `argv`. -/
structure InitialStack where
  stackTop : Nat
  argc : Nat
  argv : Nat

def buildInitialUserStack (cr3Phys : Nat) (path args : Bytes) (k : Machine) : Option InitialStack × Machine :=
  match parseSpawnArgs path args with
  | none => (none, k)
  | some values =>
    match pushStrings cr3Phys values.reverse userStackTop [] k with
    | (none, k) => (none, k)
    | (some (sp, ptrs), k) =>
      match pushWords cr3Phys (0 :: ptrs.reverse) (alignDown sp 16) k with
      | (none, k) => (none, k)
      | (some sp, k) => (some ⟨sp, values.length, sp⟩, k)

end TangPingOS
