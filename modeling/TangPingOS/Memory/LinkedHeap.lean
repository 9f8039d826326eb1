import TangPingOS.Lib.LinkedList
import TangPingOS.Memory.Heap

/-! # The kernel heap as it is linked

`struct heap_block` with its links: `heap_split_block`, `heap_coalesce`, `kmalloc`
and `kfree` on headers that point to their neighbours. The heap that the machine
keeps as a list of blocks is what these headers represent.
-/

namespace TangPingOS

open Lib

def heapMagic : Nat := 0x54484541504d454d

/-- The fields of `struct heap_block` besides its links. -/
structure HeapHeader where
  size : Nat
  free : Bool
  magic : Nat
  deriving DecidableEq, Repr

namespace LinkedHeap

/-- `heap_head` and `heap_tail` before the first allocation. -/
def empty : NodeList HeapHeader :=
  { node := fun _ => ⟨⟨0, false, 0⟩, 0, 0⟩, head := 0, tail := 0 }

section

variable (h : NodeList HeapHeader)

def heapSplitBlock (block size : Nat) : NodeList HeapHeader :=
  let header := (h.node block).data
  if header.size < wrap64 (size + heapHeaderSize + heapAlign) then h
  else
    h.insertAfter block (wrap64 (block + heapHeaderSize + size)) { header with size := size }
      { size := header.size - size - heapHeaderSize, free := true, magic := heapMagic }

/-- The block at `block` grows over its neighbour, as both halves of `heap_coalesce` do it. -/
def swallow (block next : Nat) : NodeList HeapHeader :=
  let header := (h.node block).data
  h.absorb block next
    { header with size := header.size + heapHeaderSize + (h.node next).data.size }

/-- The first half of `heap_coalesce`: a free successor is swallowed. -/
def coalesceNext (block : Nat) : NodeList HeapHeader :=
  let next := (h.node block).next
  if next ≠ 0 ∧ (h.node next).data.free then swallow h block next else h

def coalescePrev (block : Nat) : NodeList HeapHeader :=
  let prev := (h.node block).prev
  if prev ≠ 0 ∧ (h.node prev).data.free then swallow h prev block else h

def heapCoalesce (block : Nat) : NodeList HeapHeader :=
  coalescePrev (coalesceNext h block) block

/-- The loop of `kmalloc` over the blocks. Each takes at least 64 bytes of the heap, so there are
    fewer than `heapSize` of them. -/
def takeFree (size : Nat) : Option (Nat × NodeList HeapHeader) :=
  let fits (header : HeapHeader) := header.free && decide (size ≤ header.size)
  (h.find fits heapSize h.head).map fun block =>
    let h := heapSplitBlock h block size
    (block, h.setData block { (h.node block).data with free := false })

end

def kmalloc (size : Nat) (h : NodeList HeapHeader) (k : Machine) :
    Except Panic (Nat × NodeList HeapHeader × Machine) :=
  if size = 0 then .ok (0, h, k)
  else
    let allocSize := alignUp size heapAlign
    match takeFree h allocSize with
    | some (block, h) => .ok (block + heapHeaderSize, h, k)
    | none =>
      let start := alignUp k.heap.next heapAlign
      let heapEnd := alignUp (start + heapHeaderSize + allocSize) heapAlign
      if heapBase + heapSize < heapEnd then .error .kernelHeapExhausted
      else do
        let k ← heapEnsureMapped heapEnd k
        let h := h.pushBack start { size := allocSize, free := false, magic := heapMagic }
        return (start + heapHeaderSize, h, { k with heap := { k.heap with next := heapEnd } })

def kfree (ptr : Nat) (h : NodeList HeapHeader) : Except Panic (NodeList HeapHeader) :=
  if ptr = 0 then .ok h
  else
    let block := ptr - heapHeaderSize
    let header := (h.node block).data
    if header.magic ≠ heapMagic ∨ header.free then .error .invalidKernelHeapFree
    else .ok (heapCoalesce (h.setData block { header with free := true }) block)

end LinkedHeap

end TangPingOS
