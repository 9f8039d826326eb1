import TangPingOS.Memory.HeapBlocks
import TangPingOS.Memory.PageAllocator

/-! # Runs of the kernel heap

Any sequence of `kmalloc` and `kfree` calls, with whatever other work of the kernel
between them. The linked headers stay those of a list of blocks that tiles the heap,
every allocation lies in a block of its own, and no such block is refused by `kfree`.
-/

namespace TangPingOS

open Lib

theorem vmmNextLevel_heap (ran : vmmNextLevel table index flags k = .ok (next, k')) : k'.heap = k.heap := by
  unfold vmmNextLevel at ran
  split at ran
  · obtain ⟨⟨phys, k₁⟩, taken, rest⟩ := bind_eq_ok ran
    obtain ⟨page, inside, -, -, rfl⟩ := pmmAllocPage_ok taken
    cases rest
    rfl
  · cases ran
    split <;> rfl

theorem vmmMapPageIn_heap (ran : vmmMapPageIn cr3 virt phys flags k = .ok (mapped, k')) : k'.heap = k.heap := by
  unfold vmmMapPageIn at ran
  split at ran
  · cases ran
    rfl
  · obtain ⟨⟨pdpt, k₁⟩, first, ran⟩ := bind_eq_ok ran
    obtain ⟨⟨pd, k₂⟩, second, ran⟩ := bind_eq_ok ran
    obtain ⟨⟨pt, k₃⟩, third, ran⟩ := bind_eq_ok ran
    cases ran
    rw [Machine.setWord_heap, vmmNextLevel_heap third, vmmNextLevel_heap second,
      vmmNextLevel_heap first]

theorem heapMapPages_heap (ran : heapMapPages count k = .ok k') :
    k'.heap = { k.heap with mappedEnd := k.heap.mappedEnd + count * pageSize } := by
  induction count generalizing k with
  | zero =>
    cases ran
    simp
  | succ count ih =>
    obtain ⟨⟨phys, k₁⟩, taken, ran⟩ := bind_eq_ok ran
    obtain ⟨⟨mapped, k₂⟩, entered, ran⟩ := bind_eq_ok ran
    obtain ⟨page, inside, -, -, rfl⟩ := pmmAllocPage_ok taken
    have same : k₂.heap = k.heap :=
      (vmmMapPageIn_heap (k := k.takePage page inside) entered).trans rfl
    cases mapped with
    | false => cases ran
    | true =>
      rw [ih ran]
      simp only [same, Heap.mk.injEq, true_and]
      simp only [pageSize]
      omega

/-- Behind `heap_ensure_mapped` the heap is mapped up to where it was asked for. -/
theorem heapEnsureMapped_heap (ran : heapEnsureMapped heapEnd k = .ok k') :
    k'.heap.blocks = k.heap.blocks ∧ heapEnd ≤ k'.heap.mappedEnd := by
  rw [heapMapPages_heap ran]
  refine ⟨rfl, ?_⟩
  simp only [pageSize]
  omega

theorem alignUp_sixteen (small : value + 16 ≤ 2 ^ 64) : alignUp value heapAlign = (value + 15) / 16 * 16 := by
  simp only [alignUp, heapAlign, wrap64]
  rw [Nat.mod_eq_of_lt (by omega)]
  rfl

/-- The size that `kmalloc` takes for a request. -/
theorem alignUp_request (some_ : 0 < size) (bound : size ≤ heapSize) :
    ((alignUp size heapAlign) % heapAlign = 0 ∧ heapAlign ≤ alignUp size heapAlign) ∧
      size ≤ alignUp size heapAlign := by
  simp only [heapSize] at bound
  rw [alignUp_sixteen (by omega)]
  simp only [heapAlign]
  omega

/-- `heap_next` is aligned already, and so is the end of a block put there. -/
theorem Shaped.alignUp_next (shape : Shaped blocks next) (bound : size ≤ heapSize) :
    alignUp next heapAlign = next ∧
      alignUp (next + heapHeaderSize + alignUp size heapAlign) heapAlign
        = next + heapHeaderSize + alignUp size heapAlign := by
  have base : next % 16 = 0 := shape.tiles.aligned_stop shape.sized (by decide)
  have inside := shape.inside
  simp only [heapBase, heapSize] at inside bound
  have asked : alignUp size heapAlign = (size + 15) / 16 * 16 := alignUp_sixteen (by omega)
  rw [alignUp_sixteen (by omega), heapHeaderSize, alignUp_sixteen (by omega)]
  omega

/-- The state of the heap and the allocations, pointer and requested size, that are in use. -/
structure HeapInv (h : NodeList HeapHeader) (k : Machine) (live : List (Nat × Nat))
    (blocks : List HeapBlock) : Prop where
  holds : LinkedHeap.Holds h blocks
  shape : Shaped blocks k.heap.next
  chain : blocks.IsChain Apart
  mapped : k.heap.next ≤ k.heap.mappedEnd
  owned : ∀ p ∈ live, ∃ b ∈ blocks, b.free = false ∧ p.1 = b.addr + heapHeaderSize ∧ p.2 ≤ b.size
  distinct : (live.map Prod.fst).Nodup

namespace HeapInv

variable {h h' : NodeList HeapHeader} {k k' : Machine} {live : List (Nat × Nat)}
  {blocks : List HeapBlock} {size ptr : Nat}

theorem empty (base : k.heap.next = heapBase) (mapped : k.heap.mappedEnd = heapBase) :
    HeapInv LinkedHeap.empty k [] [] where
  holds := LinkedHeap.holds_empty
  shape := ⟨base.symm, fun _ none => absurd none List.not_mem_nil, by rw [base]; simp⟩
  chain := .nil
  mapped := by rw [base, mapped]
  owned _ none := absurd none List.not_mem_nil
  distinct := List.nodup_nil

theorem other (inv : HeapInv h k live blocks) (next : k'.heap.next = k.heap.next)
    (mapped : k'.heap.mappedEnd = k.heap.mappedEnd) : HeapInv h k' live blocks :=
  ⟨inv.holds, next ▸ inv.shape, inv.chain, by rw [next, mapped]; exact inv.mapped, inv.owned,
    inv.distinct⟩

theorem block_of (inv : HeapInv h k live blocks) (present : p ∈ live) :
    ∃ l b r, blocks = l ++ b :: r ∧ b.free = false ∧ p.1 = b.addr + heapHeaderSize := by
  obtain ⟨b, member, taken, ptr, -⟩ := inv.owned p present
  obtain ⟨l, r, rfl⟩ := List.append_of_mem member
  exact ⟨l, b, r, rfl, taken, ptr⟩

/-- An allocation in a free block, whose place is taken by `new`. -/
theorem add {l r new : List HeapBlock} {b c : HeapBlock} (inv : HeapInv h k live (l ++ b :: r))
    (free : b.free) (holds : LinkedHeap.Holds h' (l ++ new ++ r))
    (shape : Shaped (l ++ new ++ r) k.heap.next) (chain : (l ++ new ++ r).IsChain Apart)
    (member : c ∈ new) (taken : c.free = false) (here : c.addr = b.addr) (large : size ≤ c.size) :
    HeapInv h' k ((b.addr + heapHeaderSize, size) :: live) (l ++ new ++ r) where
  holds := holds
  shape := shape
  chain := chain
  mapped := inv.mapped
  owned := by
    intro p present
    cases present with
    | head => exact ⟨c, by simp [member], taken, by rw [here], large⟩
    | tail _ present =>
      obtain ⟨d, old, live_d, ptr, large_d⟩ := inv.owned p present
      have differs : d ≠ b := by
        rintro rfl
        simp [free] at live_d
      refine ⟨d, ?_, live_d, ptr, large_d⟩
      simp only [List.mem_append, List.mem_cons] at old ⊢
      tauto
  distinct := by
    refine List.nodup_cons.mpr ⟨?_, inv.distinct⟩
    intro present
    obtain ⟨p, member_p, same⟩ := List.mem_map.mp present
    obtain ⟨d, old, live_d, ptr, -⟩ := inv.owned p member_p
    have at_b : d.addr = b.addr := by
      omega
    rcases List.mem_append.mp old with old | old
    · exact inv.shape.ne_addr d (List.mem_append_left r old) at_b
    · cases old with
      | head => simp [free] at live_d
      | tail _ old => exact inv.shape.ne_addr d (List.mem_append_right l old) at_b

variable (inv : HeapInv h k live blocks)

include inv

theorem grow (here : block.addr = k.heap.next) (sized : block.Sized) (taken : block.free = false)
    (large : size ≤ block.size) (ends : k'.heap.next = k.heap.next + heapHeaderSize + block.size)
    (room : k'.heap.next ≤ heapBase + heapSize) (mapped : k'.heap.next ≤ k'.heap.mappedEnd) :
    HeapInv (h.pushBack block.addr block.header) k'
      ((block.addr + heapHeaderSize, size) :: live) (blocks ++ [block]) := by
  have before : ∀ c ∈ blocks, c.addr < block.addr := by
    intro c member
    have := (inv.shape.tiles.within member).2
    simp only [heapHeaderSize] at this
    omega
  constructor
  · refine inv.holds.pushBack rfl ?_ fun c member => Nat.ne_of_lt (before c member)
    have := inv.shape.tiles.le
    simp only [heapBase] at this
    omega
  · refine ⟨Tiles.append.mpr ⟨k.heap.next, inv.shape.tiles, here, ends.symm⟩, ?_, room⟩
    intro c member
    rcases List.mem_append.mp member with member | member
    · exact inv.shape.sized c member
    · rwa [List.mem_singleton.mp member]
  · refine List.isChain_append.mpr ⟨inv.chain, .singleton block, ?_⟩
    simp [Apart, taken]
  · exact mapped
  · intro p present
    cases present with
    | head => exact ⟨block, by simp, taken, rfl, large⟩
    | tail _ present =>
      obtain ⟨d, old, rest⟩ := inv.owned p present
      exact ⟨d, List.mem_append_left _ old, rest⟩
  · refine List.nodup_cons.mpr ⟨?_, inv.distinct⟩
    intro present
    obtain ⟨p, member_p, same⟩ := List.mem_map.mp present
    obtain ⟨d, old, -, ptr, -⟩ := inv.owned p member_p
    have := before d old
    omega

/-- `kmalloc` on the links, and on the list of blocks where the machine keeps them. -/
theorem malloc (some_ : 0 < size) (bound : size ≤ heapSize)
    (ran : LinkedHeap.kmalloc size h k = .ok (ptr, h', k')) :
    ∃ blocks', HeapInv h' k' ((ptr, size) :: live) blocks' ∧
      (k.heap.blocks = blocks →
        kmalloc size k = .ok (ptr, { k' with heap := { k'.heap with blocks := blocks' } })) := by
  obtain ⟨sized, large⟩ := alignUp_request some_ bound
  simp only [LinkedHeap.kmalloc, Nat.ne_of_gt some_, if_false] at ran
  cases found : blocks.find? (fits (alignUp size heapAlign)) with
  | some b =>
    obtain ⟨fit, l, r, rfl, skipped⟩ := List.find?_eq_some_iff_append.mp found
    have before : ∀ x ∈ l, fits (alignUp size heapAlign) x = false := by simpa using skipped
    obtain ⟨h₁, taken, holds⟩ := LinkedHeap.takeFree_some inv.holds inv.shape before fit
    rw [taken] at ran
    cases ran
    obtain ⟨c, rest, isTaken, live_c, here, large_c⟩ := takenBlocks_first fit
    refine ⟨_, inv.add (Bool.and_elim_left fit) holds (inv.shape.take sized.1 sized.2)
      (chain_take inv.chain fit) (by simp [isTaken]) live_c here (large.trans large_c), ?_⟩
    intro same
    simp only [kmalloc, Nat.ne_of_gt some_, if_false, same]
    rw [heapTakeFree_some inv.shape before fit]
  | none =>
    rw [LinkedHeap.takeFree_none inv.holds inv.shape found] at ran
    obtain ⟨start, ends⟩ := inv.shape.alignUp_next bound
    simp only [start, ends] at ran
    split at ran
    · cases ran
    · rename_i room
      obtain ⟨k₁, grown, ran⟩ := bind_eq_ok ran
      cases ran
      obtain ⟨blocks₁, mapped⟩ := heapEnsureMapped_heap grown
      let block : HeapBlock := ⟨k.heap.next, alignUp size heapAlign, false⟩
      have here : block.addr = k.heap.next := rfl
      refine ⟨_, inv.grow here sized rfl large rfl (Nat.not_lt.mp room) mapped, ?_⟩
      intro same
      simp only [kmalloc, Nat.ne_of_gt some_, same, heapTakeFree_none found, start, ends,
        if_neg room, grown]
      rw [← same, ← blocks₁]
      rfl

/-- `kfree` of an allocation succeeds and takes it from the ones in use. -/
theorem free (present : (ptr, size) ∈ live) :
    ∃ h' blocks', LinkedHeap.kfree ptr h = .ok h' ∧
      HeapInv h' k (live.erase (ptr, size)) blocks' ∧
      (k.heap.blocks = blocks →
        kfree ptr k = .ok { k with heap := { k.heap with blocks := blocks' } }) := by
  obtain ⟨l, b, r, rfl, taken, here⟩ := inv.block_of present
  obtain ⟨h', blocks', freed, released, holds, shape, chain, kept⟩ :=
    release_spec inv.holds inv.shape inv.chain taken
  subst here
  have alone := (List.nodup_cons.mp (((List.perm_cons_erase present).map Prod.fst).nodup_iff.mp inv.distinct)).1
  refine ⟨h', blocks', freed, ⟨holds, shape, chain, inv.mapped, ?_, ?_⟩, ?_⟩
  · intro p member
    obtain ⟨d, old, live_d, ptr, large⟩ := inv.owned p (List.mem_of_mem_erase member)
    refine ⟨d, (kept d live_d).mpr ?_, live_d, ptr, large⟩
    have differs : d ≠ b := by
      rintro rfl
      have again := List.mem_map_of_mem (f := Prod.fst) member
      rw [ptr] at again
      exact alone again
    simpa [differs] using old
  · exact inv.distinct.sublist (List.erase_sublist.map _)
  · intro same
    have real : b.addr + heapHeaderSize ≠ 0 := by simp [heapHeaderSize]
    simp only [kfree, if_neg real, Nat.add_sub_cancel, same, released]

end HeapInv

/-- The reachable states of the heap, with the allocations in use. Between the calls the kernel may
    do anything that leaves `heap_next` and `heap_mapped_end` alone. -/
inductive HeapRun : NodeList HeapHeader → Machine → List (Nat × Nat) → Prop
  | init {k : Machine} (base : k.heap.next = heapBase) (mapped : k.heap.mappedEnd = heapBase) :
      HeapRun LinkedHeap.empty k []
  | malloc {h h' k k' live size ptr} (run : HeapRun h k live) (some_ : 0 < size)
      (bound : size ≤ heapSize) (ran : LinkedHeap.kmalloc size h k = .ok (ptr, h', k')) :
      HeapRun h' k' ((ptr, size) :: live)
  | free {h h' k live size ptr} (run : HeapRun h k live) (present : (ptr, size) ∈ live)
      (ran : LinkedHeap.kfree ptr h = .ok h') : HeapRun h' k (live.erase (ptr, size))
  | other {h k k' live} (run : HeapRun h k live) (next : k'.heap.next = k.heap.next)
      (mapped : k'.heap.mappedEnd = k.heap.mappedEnd) : HeapRun h k' live

theorem HeapRun.inv (run : HeapRun h k live) : ∃ blocks, HeapInv h k live blocks := by
  induction run with
  | init base mapped => exact ⟨[], .empty base mapped⟩
  | malloc _ some_ bound ran ih =>
    obtain ⟨blocks, inv⟩ := ih
    obtain ⟨blocks', inv', -⟩ := inv.malloc some_ bound ran
    exact ⟨blocks', inv'⟩
  | free _ present ran ih =>
    obtain ⟨blocks, inv⟩ := ih
    obtain ⟨h', blocks', freed, inv', -⟩ := inv.free present
    rw [freed] at ran
    cases ran
    exact ⟨blocks', inv'⟩
  | other _ next mapped ih =>
    obtain ⟨blocks, inv⟩ := ih
    exact ⟨blocks, inv.other next mapped⟩

def payloadSize (h : NodeList HeapHeader) (ptr : Nat) : Nat :=
  (h.node (ptr - heapHeaderSize)).data.size

namespace HeapInv

variable {h : NodeList HeapHeader} {k : Machine} {live : List (Nat × Nat)} {blocks : List HeapBlock}

theorem disjoint (inv : HeapInv h k live blocks) : live.Pairwise fun p q =>
    p.1 + payloadSize h p.1 ≤ q.1 ∨ q.1 + payloadSize h q.1 ≤ p.1 := by
  have distinct := List.pairwise_map.mp inv.distinct
  refine distinct.imp_of_mem ?_
  intro p q present_p present_q differ
  obtain ⟨l, b, r, rfl, -, here_p⟩ := inv.block_of present_p
  obtain ⟨c, member, -, here_q, -⟩ := inv.owned q present_q
  have size_p : payloadSize h p.1 = b.size := by
    rw [payloadSize, here_p, Nat.add_sub_cancel, inv.holds.node_data]
    rfl
  have size_q : payloadSize h q.1 = c.size := by
    rw [payloadSize, here_q, Nat.add_sub_cancel, inv.holds.nodes.data_eq member]
    rfl
  obtain ⟨l', r', same⟩ := List.append_of_mem member
  have outside := inv.shape.tiles.outside member
  have outside' := (same ▸ inv.shape.tiles).outside (same ▸ List.mem_append_right l List.mem_cons_self)
  omega

end HeapInv

def smallHeapCalls : Except Panic (Nat × Nat × NodeList HeapHeader × Machine) := do
  let (first, h, k) ← LinkedHeap.kmalloc 24 LinkedHeap.empty (memoryInit smallMemmap blankMachine)
  let (second, h, k) ← LinkedHeap.kmalloc 100 h k
  let h ← LinkedHeap.kfree first h
  return (first, second, h, k)

theorem smallHeapCalls_run :
    ∃ first second h k, smallHeapCalls = .ok (first, second, h, k) ∧ HeapRun h k [(second, 100)] := by
  have ok : smallHeapCalls.isOk := by decide +kernel
  cases ran : smallHeapCalls with
  | error e =>
    rw [ran] at ok
    cases ok
  | ok result =>
    obtain ⟨⟨first, h₁, k₁⟩, ran₁, rest⟩ := bind_eq_ok ran
    obtain ⟨⟨second, h₂, k₂⟩, ran₂, rest⟩ := bind_eq_ok rest
    obtain ⟨h₃, ran₃, rest⟩ := bind_eq_ok rest
    cases rest
    have start : HeapRun LinkedHeap.empty (memoryInit smallMemmap blankMachine) [] := .init rfl rfl
    have both := (start.malloc (by decide) (by decide) ran₁).malloc (by decide) (by decide) ran₂
    have run := both.free (List.mem_cons_of_mem _ List.mem_cons_self) ran₃
    rw [List.erase_cons_tail (by simp), List.erase_cons_head] at run
    exact ⟨first, second, h₃, k₂, rfl, run⟩

/-- Where a free block serves a request, releasing it again gives back the same blocks, and the next request is
    served by the same one. -/
theorem kmalloc_kfree_neutral {h : NodeList HeapHeader} {k : Machine} {live : List (Nat × Nat)} {n : Nat}
    (run : HeapRun h k live) (some_ : 0 < n) (bound : n ≤ heapSize)
    (served : LinkedHeap.takeFree h (alignUp n heapAlign) ≠ none) :
    ∃ ptr h₁ h₂, LinkedHeap.kmalloc n h k = .ok (ptr, h₁, k) ∧ LinkedHeap.kfree ptr h₁ = .ok h₂ ∧
      (∃ blocks, LinkedHeap.Holds h blocks ∧ LinkedHeap.Holds h₂ blocks) ∧
      ∃ h₃, LinkedHeap.kmalloc n h₂ k = .ok (ptr, h₃, k) := by
  obtain ⟨blocks, inv⟩ := run.inv
  cases found : blocks.find? (fits (alignUp n heapAlign)) with
  | none => exact absurd (LinkedHeap.takeFree_none inv.holds inv.shape found) served
  | some b =>
    obtain ⟨fit, l, r, rfl, skipped⟩ := List.find?_eq_some_iff_append.mp found
    have before : ∀ x ∈ l, fits (alignUp n heapAlign) x = false := by simpa using skipped
    have allocates {h' : NodeList HeapHeader} (holds : LinkedHeap.Holds h' (l ++ b :: r)) :
        ∃ h₁, LinkedHeap.kmalloc n h' k = .ok (b.addr + heapHeaderSize, h₁, k) ∧
          LinkedHeap.Holds h₁ (l ++ takenBlocks (alignUp n heapAlign) b ++ r) := by
      obtain ⟨h₁, taken, holds₁⟩ := LinkedHeap.takeFree_some holds inv.shape before fit
      exact ⟨h₁, by simp [LinkedHeap.kmalloc, some_.ne', taken], holds₁⟩
    obtain ⟨h₁, ran, holds₁⟩ := allocates inv.holds
    obtain ⟨sized, -⟩ := alignUp_request some_ bound
    have shape₁ := inv.shape.take sized.1 sized.2
    have chain₁ := chain_take inv.chain fit
    have restored := heapRelease_taken inv.shape inv.chain fit
    obtain ⟨c, rest, isTaken, taken, here, -⟩ := takenBlocks_first fit
    rw [isTaken, List.append_assoc] at holds₁ shape₁ chain₁ restored
    obtain ⟨h₂, blocks₂, freed, released, holds₂, -⟩ := release_spec holds₁ shape₁ chain₁ taken
    rw [here] at freed released
    obtain rfl := Option.some.inj (released.symm.trans restored)
    obtain ⟨h₃, again, -⟩ := allocates holds₂
    exact ⟨_, h₁, h₂, ran, freed, ⟨_, inv.holds, holds₂⟩, h₃, again⟩

/-- On the small machine the first block is taken, given back and taken again. -/
theorem kmalloc_kfree_neutral_small : ∃ first second h k, smallHeapCalls = .ok (first, second, h, k) ∧
    ∃ ptr h₁ h₂, LinkedHeap.kmalloc 24 h k = .ok (ptr, h₁, k) ∧ LinkedHeap.kfree ptr h₁ = .ok h₂ ∧
      (∃ blocks, LinkedHeap.Holds h blocks ∧ LinkedHeap.Holds h₂ blocks) ∧
      ∃ h₃, LinkedHeap.kmalloc 24 h₂ k = .ok (ptr, h₃, k) := by
  obtain ⟨first, second, h, k, ran, run⟩ := smallHeapCalls_run
  have served : (smallHeapCalls.toOption.bind fun result => LinkedHeap.takeFree result.2.2.1 32) ≠ none := by
    decide +kernel
  rw [ran] at served
  exact ⟨first, second, h, k, ran, kmalloc_kfree_neutral run (by decide) (by decide) served⟩

end TangPingOS
