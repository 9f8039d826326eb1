import TangPingOS.Memory.LinkedHeap

/-! # What the blocks of the kernel heap look like

The blocks tile the heap from its base to `heap_next`, their sizes are multiples of
the alignment, and no two neighbours are both free. Taking a block, splitting it and
giving it back keep that, and do to the linked headers what they do to the list.
-/

namespace TangPingOS

open Lib

/-- Each block starts where the one before it ends, from `start` to `stop`. -/
def Tiles : Nat → List HeapBlock → Nat → Prop
  | start, [], stop => start = stop
  | start, block :: rest, stop =>
    block.addr = start ∧ Tiles (start + heapHeaderSize + block.size) rest stop

def HeapBlock.Sized (block : HeapBlock) : Prop :=
  block.size % heapAlign = 0 ∧ heapAlign ≤ block.size

def Apart (a b : HeapBlock) : Prop := ¬(a.free ∧ b.free)

/-- The blocks fill the heap up to `stop`. -/
structure Shaped (blocks : List HeapBlock) (stop : Nat) : Prop where
  tiles : Tiles heapBase blocks stop
  sized : ∀ b ∈ blocks, b.Sized
  inside : stop ≤ heapBase + heapSize

namespace Tiles

variable {l r blocks : List HeapBlock} {start stop : Nat} {a b : HeapBlock}

theorem append : Tiles start (l ++ r) stop ↔ ∃ middle, Tiles start l middle ∧ Tiles middle r stop := by
  induction l generalizing start with
  | nil => simp [Tiles]
  | cons b l ih => simp [Tiles, ih, and_assoc]

theorem le (tiles : Tiles start blocks stop) : start ≤ stop := by
  induction blocks generalizing start with
  | nil => exact Nat.le_of_eq tiles
  | cons b blocks ih => exact (Nat.le_add_right_of_le (Nat.le_add_right _ _)).trans (ih tiles.2)

theorem within (tiles : Tiles start blocks stop) (present : b ∈ blocks) :
    start ≤ b.addr ∧ b.addr + heapHeaderSize + b.size ≤ stop := by
  obtain ⟨l, r, rfl⟩ := List.append_of_mem present
  obtain ⟨middle, before, here, behind⟩ := append.mp tiles
  exact ⟨here ▸ before.le, here ▸ behind.le⟩

theorem ordered (tiles : Tiles start blocks stop) :
    blocks.Pairwise fun a b => a.addr + heapHeaderSize + a.size ≤ b.addr := by
  induction blocks generalizing start with
  | nil => exact .nil
  | cons b blocks ih =>
    refine .cons (fun c present => ?_) (ih tiles.2)
    rw [tiles.1]
    exact (tiles.2.within present).1

theorem outside (tiles : Tiles start (l ++ b :: r) stop) (present : a ∈ l ++ b :: r) :
    a.addr ≤ b.addr ∨ b.addr + heapHeaderSize + b.size ≤ a.addr := by
  obtain ⟨-, behind, before⟩ := List.pairwise_append.mp tiles.ordered
  rcases List.mem_append.mp present with present | present
  · have := before a present b List.mem_cons_self
    omega
  · cases present with
    | head => exact .inl le_rfl
    | tail _ present => exact .inr (List.rel_of_pairwise_cons behind present)

theorem nodup (tiles : Tiles start blocks stop) : (blocks.map HeapBlock.addr).Nodup := by
  rw [List.Nodup, List.pairwise_map]
  refine tiles.ordered.imp ?_
  intro a b before same
  have header : 0 < heapHeaderSize := by decide
  omega

/-- A run of blocks may be replaced by one that tiles the same range. -/
theorem replace (tiles : Tiles start (l ++ old ++ r) stop)
    (same : ∀ {s t}, Tiles s old t → Tiles s new t) : Tiles start (l ++ new ++ r) stop := by
  obtain ⟨m₂, left, behind⟩ := append.mp tiles
  obtain ⟨m₁, before, middle⟩ := append.mp left
  exact append.mpr ⟨m₂, append.mpr ⟨m₁, before, same middle⟩, behind⟩

variable (tiles : Tiles start blocks stop)

include tiles

theorem length_le (sized : ∀ b ∈ blocks, b.Sized) : start + 64 * blocks.length ≤ stop := by
  induction blocks generalizing start with
  | nil => exact Nat.le_of_eq tiles
  | cons b blocks ih =>
    have rest := ih tiles.2 fun c present => sized c (List.mem_cons_of_mem b present)
    have wide := (sized b List.mem_cons_self).2
    simp only [heapAlign, heapHeaderSize, List.length_cons] at wide rest ⊢
    omega

theorem aligned (sized : ∀ b ∈ blocks, b.Sized)
    (base : start % heapAlign = 0) (present : b ∈ blocks) : b.addr % heapAlign = 0 := by
  induction blocks generalizing start with
  | nil => cases present
  | cons c blocks ih =>
    cases present with
    | head => rw [tiles.1, base]
    | tail _ present =>
      have size := (sized c List.mem_cons_self).1
      refine ih tiles.2 (fun d inside => sized d (List.mem_cons_of_mem c inside)) ?_ present
      simp only [heapAlign, heapHeaderSize] at base size ⊢
      omega

theorem aligned_stop (sized : ∀ b ∈ blocks, b.Sized) (base : start % heapAlign = 0) : stop % heapAlign = 0 := by
  induction blocks generalizing start with
  | nil => rwa [← (show start = stop from tiles)]
  | cons c blocks ih =>
    have size := (sized c List.mem_cons_self).1
    refine ih tiles.2 (fun d inside => sized d (List.mem_cons_of_mem c inside)) ?_
    simp only [heapAlign, heapHeaderSize] at base size ⊢
    omega

end Tiles

namespace Shaped

variable {l r blocks : List HeapBlock} {stop : Nat} {a b : HeapBlock}

theorem replace (shape : Shaped (l ++ old ++ r) stop)
    (same : ∀ {s t}, Tiles s old t → Tiles s new t) (sized : ∀ b ∈ new, b.Sized) :
    Shaped (l ++ new ++ r) stop := by
  refine ⟨shape.tiles.replace same, ?_, shape.inside⟩
  intro b present
  simp only [List.mem_append] at present
  rcases present with (before | inside) | behind
  · exact shape.sized b (by simp [before])
  · exact sized b inside
  · exact shape.sized b (by simp [behind])

theorem small (shape : Shaped blocks stop) (present : b ∈ blocks) :
    heapBase ≤ b.addr ∧ b.addr + heapHeaderSize + b.size ≤ heapBase + heapSize :=
  ⟨(shape.tiles.within present).1, (shape.tiles.within present).2.trans shape.inside⟩

theorem length_lt (shape : Shaped blocks stop) : blocks.length < heapSize := by
  have room := shape.tiles.length_le shape.sized
  have inside := shape.inside
  simp only [heapSize] at inside ⊢
  omega

theorem ne_addr (shape : Shaped (l ++ b :: r) stop) : ∀ x ∈ l ++ r, x.addr ≠ b.addr := by
  have nodup := shape.tiles.nodup
  rw [List.map_append, List.map_cons, List.nodup_middle, ← List.map_append, List.nodup_cons] at nodup
  intro x present same
  exact nodup.1 (same ▸ List.mem_map_of_mem present)

end Shaped

def fits (size : Nat) (block : HeapBlock) : Bool := block.free && decide (size ≤ block.size)

def takenBlocks (size : Nat) (block : HeapBlock) : List HeapBlock :=
  if block.size < size + heapHeaderSize + heapAlign then [{ block with free := false }]
  else
    [{ block with size := size, free := false },
      { addr := block.addr + heapHeaderSize + size
        size := block.size - size - heapHeaderSize
        free := true }]

section Take

variable {size stop : Nat} {l r blocks : List HeapBlock} {b : HeapBlock}

section

variable (large : size ≤ b.size) (small : b.addr + heapHeaderSize + b.size ≤ heapBase + heapSize)

include large small

/-- The sums of `heap_split_block` do not leave 64 bits. -/
theorem split_fits :
    wrap64 (size + heapHeaderSize + heapAlign) = size + heapHeaderSize + heapAlign ∧
      wrap64 (b.addr + heapHeaderSize + size) = b.addr + heapHeaderSize + size := by
  simp only [wrap64, heapBase, heapSize, heapAlign] at small ⊢
  omega

theorem heapSplitBlock_eq :
    heapSplitBlock b size =
      if b.size < size + heapHeaderSize + heapAlign then [b]
      else
        [{ b with size := size },
          { addr := b.addr + heapHeaderSize + size
            size := b.size - size - heapHeaderSize
            free := true }] := by
  rw [heapSplitBlock, (split_fits large small).1, (split_fits large small).2]

end

theorem heapTakeFree_none (no : blocks.find? (fits size) = none) : heapTakeFree size blocks = none := by
  induction blocks with
  | nil => rfl
  | cons b blocks ih =>
    rw [List.find?_eq_none] at no
    have skipped : (b.free && decide (size ≤ b.size)) = false :=
      Bool.eq_false_iff.mpr (no b List.mem_cons_self)
    have rest := ih (List.find?_eq_none.mpr fun c present => no c (List.mem_cons_of_mem b present))
    simp only [heapTakeFree, skipped]
    rw [rest]
    rfl

theorem heapTakeFree_some (shape : Shaped (l ++ b :: r) stop) (before : ∀ x ∈ l, fits size x = false)
    (fit : fits size b) :
    heapTakeFree size (l ++ b :: r) = some (b.addr, l ++ takenBlocks size b ++ r) := by
  have small := (shape.small (List.mem_append_right l List.mem_cons_self)).2
  clear shape
  induction l with
  | nil =>
    have large : size ≤ b.size := of_decide_eq_true (Bool.and_elim_right fit)
    have taken : (b.free && decide (size ≤ b.size)) := fit
    simp only [List.nil_append, heapTakeFree, taken, heapSplitBlock_eq large small,
      takenBlocks]
    by_cases narrow : b.size < size + heapHeaderSize + heapAlign <;> simp [narrow]
  | cons x l ih =>
    have skipped : (x.free && decide (size ≤ x.size)) = false := before x List.mem_cons_self
    simp only [List.cons_append, heapTakeFree, skipped]
    rw [ih fun y present => before y (List.mem_cons_of_mem x present)]
    rfl

/-- The block that is taken is the first of those in its place. -/
theorem takenBlocks_first (fit : fits size b) :
    ∃ c rest, takenBlocks size b = c :: rest ∧ c.free = false ∧ c.addr = b.addr ∧ size ≤ c.size := by
  have large : size ≤ b.size := of_decide_eq_true (Bool.and_elim_right fit)
  unfold takenBlocks
  split
  · exact ⟨_, _, rfl, rfl, rfl, large⟩
  · exact ⟨_, _, rfl, rfl, rfl, le_rfl⟩

theorem Shaped.take (shape : Shaped (l ++ b :: r) stop) (aligned : size % heapAlign = 0) (some : heapAlign ≤ size) :
    Shaped (l ++ takenBlocks size b ++ r) stop := by
  have sized := shape.sized b (List.mem_append_right l List.mem_cons_self)
  have whole : Shaped (l ++ [b] ++ r) stop := by rwa [List.append_assoc]
  unfold takenBlocks
  split
  · refine whole.replace id ?_
    intro c present
    rw [List.mem_singleton.mp present]
    exact sized
  · rename_i wide
    refine whole.replace ?_ ?_
    · simp only [Tiles] at stop ⊢
      omega
    · intro c present
      simp only [HeapBlock.Sized, heapAlign, heapHeaderSize] at sized aligned some wide ⊢
      simp only [List.mem_cons, List.not_mem_nil, or_false] at present
      rcases present with rfl | rfl
      · exact ⟨aligned, some⟩
      · dsimp only [heapHeaderSize]
        omega

theorem chain_take (chain : (l ++ b :: r).IsChain Apart) (fit : fits size b) :
    (l ++ takenBlocks size b ++ r).IsChain Apart := by
  have free : b.free := Bool.and_elim_left fit
  rw [List.append_assoc]
  obtain ⟨before, middle, join⟩ := List.isChain_append.mp chain
  obtain ⟨next, behind⟩ := List.isChain_cons.mp middle
  unfold takenBlocks
  split
  · refine List.isChain_append.mpr ⟨before, List.isChain_cons.mpr ⟨?_, behind⟩, ?_⟩
    · simp [Apart]
    · simp [Apart]
  · refine List.isChain_append.mpr ⟨before, List.isChain_cons.mpr ⟨?_, List.isChain_cons.mpr ⟨?_, behind⟩⟩, ?_⟩
    · simp [Apart]
    · intro y first
      simp_all [Apart]
    · simp [Apart]

end Take

def HeapBlock.header (block : HeapBlock) : HeapHeader :=
  { size := block.size, free := block.free, magic := heapMagic }

namespace LinkedHeap

/-- The headers linked from `heap_head` are those of the blocks. -/
abbrev Holds (h : NodeList HeapHeader) (blocks : List HeapBlock) : Prop :=
  Represents HeapBlock.addr HeapBlock.header h blocks

variable {h : NodeList HeapHeader} {size stop : Nat} {l r blocks : List HeapBlock} {b : HeapBlock}

theorem holds_empty : Holds empty [] :=
  ⟨rfl, rfl, trivial, fun _ none => absurd none List.not_mem_nil, List.nodup_nil⟩

theorem find_eq (holds : Holds h blocks) (shape : Shaped blocks stop) :
    h.find (fun header => header.free && decide (size ≤ header.size)) heapSize h.head
      = (blocks.find? (fits size)).map HeapBlock.addr :=
  holds.find_head shape.length_lt

theorem takeFree_none (holds : Holds h blocks) (shape : Shaped blocks stop)
    (no : blocks.find? (fits size) = none) : takeFree h size = none := by
  simp [takeFree, find_eq holds shape, no]

/-- The block found is split and taken in the links as it is in the list. -/
theorem takeFree_some (holds : Holds h (l ++ b :: r)) (shape : Shaped (l ++ b :: r) stop)
    (before : ∀ x ∈ l, fits size x = false) (fit : fits size b) :
    ∃ h', takeFree h size = some (b.addr, h') ∧ Holds h' (l ++ takenBlocks size b ++ r) := by
  have large : size ≤ b.size := of_decide_eq_true (Bool.and_elim_right fit)
  have present : b ∈ l ++ b :: r := List.mem_append_right l List.mem_cons_self
  have small := shape.small present
  obtain ⟨room, place⟩ := split_fits large small.2
  have found := List.find?_eq_some_iff_append.mpr ⟨fit, l, r, rfl, by simpa using before⟩
  have header := holds.node_data
  refine ⟨_, by simp only [takeFree, find_eq holds shape, found]; rfl, ?_⟩
  rw [List.append_assoc]
  unfold takenBlocks
  split
  · rename_i narrow
    have kept : heapSplitBlock h b.addr size = h := by
      simp only [heapSplitBlock, header, room]
      exact if_pos narrow
    rw [kept, header]
    exact holds.setData rfl rfl
  · rename_i wide
    let cut : HeapBlock :=
      { addr := b.addr + heapHeaderSize + size
        size := b.size - size - heapHeaderSize
        free := true }
    have split : heapSplitBlock h b.addr size
        = h.insertAfter b.addr cut.addr { b.header with size := size } cut.header := by
      simp only [heapSplitBlock, header, room, place]
      exact if_neg wide
    have fresh : ∀ c ∈ l ++ b :: r, c.addr ≠ cut.addr := by
      intro c within
      have outside := shape.tiles.outside within
      simp only [cut, heapHeaderSize] at wide outside ⊢
      omega
    have held : Holds (heapSplitBlock h b.addr size) (l ++ { b with size := size } :: cut :: r) := by
      rw [split]
      refine holds.insertAfter rfl rfl rfl ?_ fresh
      simp only [cut, heapHeaderSize]
      omega
    have header' := held.node_data
    rw [header']
    exact held.setData rfl rfl

end LinkedHeap

def HeapBlock.grown (block next : HeapBlock) : HeapBlock :=
  { block with size := block.size + heapHeaderSize + next.size }

def HeapBlock.freed (block : HeapBlock) : HeapBlock := { block with free := true }

section Release

variable {h : NodeList HeapHeader} {stop addr : Nat} {l r : List HeapBlock} {a b p : HeapBlock}

theorem Shaped.swallow (shape : Shaped (l ++ a :: b :: r) stop) : Shaped (l ++ a.grown b :: r) stop := by
  have sized_a := shape.sized a (by simp)
  have sized_b := shape.sized b (by simp)
  have whole : Shaped (l ++ [a, b] ++ r) stop := by rwa [List.append_assoc]
  have joined : Shaped (l ++ [a.grown b] ++ r) stop := by
    refine whole.replace ?_ ?_
    · rintro s t ⟨here, -, rest⟩
      refine ⟨here, ?_⟩
      simp only [Tiles, HeapBlock.grown] at rest ⊢
      omega
    · intro c present
      rw [List.mem_singleton.mp present]
      simp only [HeapBlock.Sized, HeapBlock.grown, heapAlign, heapHeaderSize] at sized_a sized_b ⊢
      omega
  rwa [List.append_assoc] at joined

theorem LinkedHeap.swallow_holds (holds : Holds h (l ++ a :: b :: r)) :
    Holds (swallow h a.addr b.addr) (l ++ a.grown b :: r) := by
  have header_a := holds.node_data
  have header_b : (h.node b.addr).data = b.header := by
    have regrouped : Holds h ((l ++ [a]) ++ b :: r) := by rwa [List.append_assoc]
    exact regrouped.node_data
  simp only [swallow, header_a, header_b]
  exact holds.absorb rfl rfl

/-- What a block becomes once it is free and joined with a free successor. -/
theorem heapMergeNext_cases (b : HeapBlock) (r : List HeapBlock) :
    (∃ n r', r = n :: r' ∧ n.free ∧ heapMergeNext b r = b.grown n :: r') ∨
      (∀ n ∈ r.head?, n.free = false) ∧ heapMergeNext b r = b :: r := by
  cases r with
  | nil => exact .inr ⟨by simp, rfl⟩
  | cons n r =>
    cases free : n.free with
    | true => exact .inl ⟨n, r, rfl, free, by simp [heapMergeNext, free, HeapBlock.grown]⟩
    | false => exact .inr ⟨by simpa using free, by simp [heapMergeNext, free]⟩

theorem LinkedHeap.coalesceNext_holds (holds : Holds h (l ++ b :: r)) :
    Holds (coalesceNext h b.addr) (l ++ heapMergeNext b r) := by
  obtain ⟨-, here, behind⟩ := holds.split
  unfold coalesceNext
  rw [here]
  rcases heapMergeNext_cases b r with ⟨n, r', rfl, free, merged⟩ | ⟨taken, merged⟩
  · have next := congrArg Node.data behind.1
    have real : n.addr ≠ 0 := holds.real_behind n List.mem_cons_self
    rw [merged, if_pos ⟨real, by simp only [firstKey]; rw [next]; exact free⟩]
    exact swallow_holds holds
  · rw [merged, if_neg]
    · exact holds
    · rintro ⟨real, free⟩
      cases r with
      | nil => exact real rfl
      | cons n r =>
        simp only [firstKey, congrArg Node.data behind.1, HeapBlock.header] at free
        simp [taken n rfl] at free

theorem Shaped.mergeNext (shape : Shaped (l ++ b :: r) stop) : Shaped (l ++ heapMergeNext b r) stop := by
  rcases heapMergeNext_cases b r with ⟨n, r', rfl, -, merged⟩ | ⟨-, merged⟩
  · rw [merged]
    exact shape.swallow
  · rwa [merged]

section

variable (released : heapRelease addr s = some (a :: t))

include released

theorem heapRelease_cons (other : p.addr ≠ addr) :
    heapRelease addr (p :: s)
      = some (if a.addr = addr ∧ p.free then p.grown a :: t else p :: a :: t) := by
  rw [heapRelease, if_neg other, released]
  rfl

/-- `kfree` leaves the blocks before the one it joins alone. -/
theorem heapRelease_before (other : a.addr ≠ addr) (others : ∀ x ∈ l, x.addr ≠ addr) :
    heapRelease addr (l ++ s) = some (l ++ a :: t) := by
  induction l with
  | nil => exact released
  | cons x l ih =>
    have rest := ih fun y present => others y (List.mem_cons_of_mem x present)
    have near : x.addr ≠ addr := others x List.mem_cons_self
    cases l with
    | nil => simpa [other] using heapRelease_cons rest near
    | cons y l =>
      have far : y.addr ≠ addr := others y (List.mem_cons_of_mem x List.mem_cons_self)
      simpa [far] using heapRelease_cons rest near

/-- Behind a block that is taken, a block is only joined with its successor. -/
theorem heapRelease_last (others : ∀ x ∈ l, x.addr ≠ addr) (last : ∀ p ∈ l.getLast?, p.free = false) :
    heapRelease addr (l ++ s) = some (l ++ a :: t) := by
  rcases List.eq_nil_or_concat l with rfl | ⟨l', p, rfl⟩
  · exact released
  · have other : p.addr ≠ addr := others p (by simp)
    have step : heapRelease addr (p :: s) = some (p :: a :: t) := by
      simpa [last p (by simp)] using heapRelease_cons released other
    simpa using heapRelease_before step other fun x present => others x (by simp [present])

end

theorem heapMergeNext_facts (b : HeapBlock) (chain : r.IsChain Apart) :
    ∃ b' r', heapMergeNext b r = b' :: r' ∧ b'.addr = b.addr ∧ b'.free = b.free ∧
      r'.IsChain Apart ∧ (∀ y ∈ r'.head?, y.free = false) ∧
      ∀ x, x.free = false → (x ∈ r' ↔ x ∈ r) := by
  rcases heapMergeNext_cases b r with ⟨n, r', rfl, free, merged⟩ | ⟨taken, merged⟩
  · obtain ⟨next, rest⟩ := List.isChain_cons.mp chain
    refine ⟨b.grown n, r', merged, rfl, rfl, rest, ?_, ?_⟩
    · intro y first
      simp_all [Apart]
    · intro x live
      have other : x ≠ n := by
        rintro rfl
        simp [free] at live
      simp [other]
  · exact ⟨b, r, merged, rfl, rfl, chain, taken, fun _ _ => Iff.rfl⟩

theorem heapRelease_here (taken : b.free = false) :
    heapRelease b.addr (b :: r) = some (heapMergeNext { b with free := true } r) := by
  simp [heapRelease, taken]

theorem LinkedHeap.coalescePrev_keeps (holds : Holds h (l ++ b :: r))
    (taken : ∀ p ∈ l.getLast?, p.free = false) : Holds (coalescePrev h b.addr) (l ++ b :: r) := by
  obtain ⟨before, here, -⟩ := holds.split
  unfold coalescePrev
  rw [here, if_neg]
  · exact holds
  · rintro ⟨real, free⟩
    rcases List.eq_nil_or_concat l with rfl | ⟨l, p, rfl⟩
    · exact real rfl
    · rw [List.concat_eq_append] at before free taken
      obtain ⟨-, last, -⟩ := Segment.append.mp before
      simp only [lastKey_append, lastKey, congrArg Node.data last, HeapBlock.header] at free
      simp [taken p (by simp)] at free

theorem LinkedHeap.coalescePrev_grows (holds : Holds h (l ++ p :: b :: r)) (free : p.free) :
    Holds (coalescePrev h b.addr) (l ++ p.grown b :: r) := by
  obtain ⟨-, last, here, -⟩ := holds.split
  have real : p.addr ≠ 0 := holds.real p (by simp)
  unfold coalescePrev
  rw [here, if_pos ⟨real, by rw [last]; exact free⟩]
  exact swallow_holds holds

theorem LinkedHeap.kfree_eq (holds : Holds h (l ++ b :: r)) (taken : b.free = false) :
    kfree (b.addr + heapHeaderSize) h
      = .ok (heapCoalesce (h.setData b.addr b.freed.header) b.addr) := by
  have header := holds.node_data
  have real : b.addr + heapHeaderSize ≠ 0 := by simp [heapHeaderSize]
  simp only [kfree, if_neg real, Nat.add_sub_cancel, header, HeapBlock.header, taken]
  simp [HeapBlock.freed]

theorem Shaped.freed (shape : Shaped (l ++ b :: r) stop) : Shaped (l ++ b.freed :: r) stop := by
  have whole : Shaped (l ++ [b] ++ r) stop := by rwa [List.append_assoc]
  have changed : Shaped (l ++ [b.freed] ++ r) stop := by
    refine whole.replace id ?_
    intro c present
    rw [List.mem_singleton.mp present]
    exact shape.sized b (by simp)
  rwa [List.append_assoc] at changed

theorem chain_between (chain_l : l.IsChain Apart) (chain_r : r.IsChain Apart)
    (last : ∀ p ∈ l.getLast?, p.free = false) (first : ∀ n ∈ r.head?, n.free = false) :
    (l ++ b :: r).IsChain Apart := by
  refine List.isChain_append.mpr ⟨chain_l, List.isChain_cons.mpr ⟨?_, chain_r⟩, ?_⟩
  · intro n present
    simp [Apart, first n present]
  · intro p present _ _
    simp [Apart, last p present]

theorem last_cases (l : List HeapBlock) : (∀ p ∈ l.getLast?, p.free = false) ∨ ∃ l' p, l = l' ++ [p] ∧ p.free := by
  rcases List.eq_nil_or_concat l with rfl | ⟨l, p, rfl⟩
  · exact .inl (by simp)
  · rw [List.concat_eq_append]
    cases free : p.free with
    | false => exact .inl (by simpa using free)
    | true => exact .inr ⟨l, p, rfl, free⟩

/-- A taken block can be given back, and giving it back keeps the shape of the heap. -/
theorem release_spec (holds : LinkedHeap.Holds h (l ++ b :: r)) (shape : Shaped (l ++ b :: r) stop)
    (chain : (l ++ b :: r).IsChain Apart) (taken : b.free = false) :
    ∃ h' blocks, LinkedHeap.kfree (b.addr + heapHeaderSize) h = .ok h' ∧
      heapRelease b.addr (l ++ b :: r) = some blocks ∧ LinkedHeap.Holds h' blocks ∧
      Shaped blocks stop ∧ blocks.IsChain Apart ∧
      ∀ x, x.free = false → (x ∈ blocks ↔ x ∈ l ++ r) := by
  obtain ⟨chain_l, chain_b, -⟩ := List.isChain_append.mp chain
  obtain ⟨-, chain_r⟩ := List.isChain_cons.mp chain_b
  have others : ∀ x ∈ l, x.addr ≠ b.addr := fun x present =>
    shape.ne_addr x (List.mem_append_left r present)
  have freed := LinkedHeap.kfree_eq holds taken
  -- The block is marked free, then joined with what is behind it.
  have marked : LinkedHeap.Holds (h.setData b.addr b.freed.header) (l ++ b.freed :: r) :=
    holds.setData rfl rfl
  have forward := LinkedHeap.coalesceNext_holds marked
  have forward_shape := shape.freed.mergeNext
  have released : heapRelease b.addr (b :: r) = some (heapMergeNext b.freed r) :=
    heapRelease_here taken
  obtain ⟨b', r', merged, same, free, chain', first, kept⟩ := heapMergeNext_facts b.freed chain_r
  rw [merged] at forward forward_shape released
  have addr' : b.addr = b'.addr := same.symm
  rcases last_cases l with last | ⟨l', p, rfl, free_p⟩
  · refine ⟨_, l ++ b' :: r', freed, ?_, ?_, forward_shape, chain_between chain_l chain' last first, ?_⟩
    · exact heapRelease_last released others last
    · have backward := LinkedHeap.coalescePrev_keeps forward last
      rwa [← addr'] at backward
    · intro x live
      have other : x ≠ b' := by
        rintro rfl
        simp [free, HeapBlock.freed] at live
      simp [kept x live, other]
  · rw [List.append_assoc] at forward forward_shape
    have other : p.addr ≠ b.addr := others p (by simp)
    obtain ⟨chain_l', -, join⟩ := List.isChain_append.mp chain_l
    have last : ∀ q ∈ l'.getLast?, q.free = false := by
      intro q present
      simp_all [Apart]
    refine ⟨_, l' ++ p.grown b' :: r', freed, ?_, ?_, forward_shape.swallow,
      chain_between chain_l' chain' last first, ?_⟩
    · have step : heapRelease b.addr (p :: b :: r) = some (p.grown b' :: r') := by
        simpa [addr', free_p] using heapRelease_cons released other
      simpa using heapRelease_before step (show (p.grown b').addr ≠ b.addr from other)
        fun x present => others x (by simp [present])
    · have backward := LinkedHeap.coalescePrev_grows forward free_p
      rwa [← addr'] at backward
    · intro x live
      have other_p : x ≠ p := by
        rintro rfl
        simp [free_p] at live
      have other_f : x ≠ p.grown b' := by
        rintro rfl
        simp [free_p, HeapBlock.grown] at live
      simp [kept x live, other_p, other_f]

/-- A free block that is taken and given back is what it was. -/
theorem heapRelease_taken (shape : Shaped (l ++ b :: r) stop) (chain : (l ++ b :: r).IsChain Apart)
    (fit : fits size b) :
    heapRelease b.addr (l ++ takenBlocks size b ++ r) = some (l ++ b :: r) := by
  have free : b.free := Bool.and_elim_left fit
  obtain ⟨-, chain_b, join⟩ := List.isChain_append.mp chain
  have first : ∀ n ∈ r.head?, n.free = false := by
    intro n present
    simpa [Apart, free] using (List.isChain_cons.mp chain_b).1 n present
  have last : ∀ p ∈ l.getLast?, p.free = false := by
    intro p present
    simpa [Apart, free] using join p present b rfl
  have others : ∀ x ∈ l, x.addr ≠ b.addr := fun x present => shape.ne_addr x (List.mem_append_left r present)
  rw [List.append_assoc]
  refine heapRelease_last ?_ others last
  unfold takenBlocks
  split
  · rw [List.singleton_append, heapRelease_here (b := { b with free := false }) rfl, ← free]
    obtain ⟨n, r', rfl, freed, -⟩ | ⟨-, kept⟩ := heapMergeNext_cases b r
    · simp [first n rfl] at freed
    · rw [kept]
  · have whole : size + heapHeaderSize + (b.size - size - heapHeaderSize) = b.size := by omega
    simp [heapRelease, heapMergeNext, whole, ← free]

end Release

end TangPingOS
