import TangPingOS.Memory.Paging

/-! # The kernel heap

`kmalloc` and `kfree`. The blocks are kept as the list that `heap_head` leads to;
their headers and payloads are not written to memory. Growing the heap maps fresh
pages in the upper half of the current address space.
-/

namespace TangPingOS

open Lib

def heapBase : Nat := 0xffffffff90000000
def heapSize : Nat := 16 * 1024 * 1024
def heapAlign : Nat := 16

/-- `heap_header_size()`: 40 bytes of header, aligned. -/
def heapHeaderSize : Nat := 48

/-- `heap_split_block`: the block cut down to `size`, and what is cut off. -/
def heapSplitBlock (block : HeapBlock) (size : Nat) : List HeapBlock :=
  if block.size < wrap64 (size + heapHeaderSize + heapAlign) then [block]
  else
    [{ block with size := size },
      { addr := wrap64 (block.addr + heapHeaderSize + size)
        size := block.size - size - heapHeaderSize
        free := true }]

/-- The search of `kmalloc`: the first free block that is large enough, split and taken. -/
def heapTakeFree (size : Nat) : List HeapBlock → Option (Nat × List HeapBlock)
  | [] => none
  | block :: rest =>
    if block.free && decide (size ≤ block.size) then
      match heapSplitBlock block size with
      | head :: tail => some (head.addr, { head with free := false } :: tail ++ rest)
      | [] => none
    else (heapTakeFree size rest).map fun (addr, blocks) => (addr, block :: blocks)

/-- `heap_ensure_mapped`, `count` pages. -/
def heapMapPages : Nat → Machine → Except Panic Machine
  | 0, k => .ok k
  | count + 1, k => do
    let (phys, k) ← pmmAllocPage k
    let (mapped, k) ← vmmMapPage k.heap.mappedEnd phys (pteWritable ||| pteNoExec) k
    if mapped then
      heapMapPages count { k with heap := { k.heap with mappedEnd := k.heap.mappedEnd + pageSize } }
    else .error .mapKernelHeapPage

def heapEnsureMapped (heapEnd : Nat) (k : Machine) : Except Panic Machine :=
  heapMapPages ((heapEnd - k.heap.mappedEnd + pageSize - 1) / pageSize) k

/-- `kmalloc`. A null pointer is 0. -/
def kmalloc (size : Nat) (k : Machine) : Except Panic (Nat × Machine) :=
  if size = 0 then .ok (0, k)
  else
    let allocSize := alignUp size heapAlign
    match heapTakeFree allocSize k.heap.blocks with
    | some (addr, blocks) =>
      .ok (addr + heapHeaderSize, { k with heap := { k.heap with blocks := blocks } })
    | none =>
      let start := alignUp k.heap.next heapAlign
      let heapEnd := alignUp (start + heapHeaderSize + allocSize) heapAlign
      if heapBase + heapSize < heapEnd then .error .kernelHeapExhausted
      else do
        let k ← heapEnsureMapped heapEnd k
        let block : HeapBlock := { addr := start, size := allocSize, free := false }
        return (start + heapHeaderSize,
          { k with heap := { k.heap with blocks := k.heap.blocks ++ [block], next := heapEnd } })

/-- The first half of `heap_coalesce`: a free successor is swallowed. -/
def heapMergeNext (block : HeapBlock) : List HeapBlock → List HeapBlock
  | [] => [block]
  | next :: rest =>
    if next.free then { block with size := block.size + heapHeaderSize + next.size } :: rest
    else block :: next :: rest

/-- `kfree` on the block at `addr`; none if there is no such block or it is free already. -/
def heapRelease (addr : Nat) : List HeapBlock → Option (List HeapBlock)
  | [] => none
  | block :: rest =>
    if block.addr = addr then
      if block.free then none else some (heapMergeNext { block with free := true } rest)
    else
      (heapRelease addr rest).map fun rest =>
        match rest with
        | [] => [block]
        | next :: tail =>
          -- The second half of `heap_coalesce`: a free predecessor swallows the block.
          if next.addr = addr ∧ block.free then
            { block with size := block.size + heapHeaderSize + next.size } :: tail
          else block :: next :: tail

def kfree (ptr : Nat) (k : Machine) : Except Panic Machine :=
  if ptr = 0 then .ok k
  else
    match heapRelease (ptr - heapHeaderSize) k.heap.blocks with
    | none => .error .invalidKernelHeapFree
    | some blocks => .ok { k with heap := { k.heap with blocks := blocks } }

end TangPingOS
