import Mathlib.Data.List.Nodup
import Mathlib.Logic.Function.Basic

/-! # Doubly linked lists of nodes

Nodes lie at addresses and link to their neighbours by address; 0 is no node. A
list of values is represented by the nodes that hold it, and each operation on the
links is one on the list: a node inserted after another, a node absorbed by its
predecessor, a node put at the end, a node given other data.
-/

namespace TangPingOS.Lib

structure Node (δ : Type*) where
  data : δ
  prev : Nat
  next : Nat

structure NodeList (δ : Type*) where
  node : Nat → Node δ
  head : Nat
  tail : Nat

variable {β δ : Type*}

namespace NodeList

variable (h : NodeList δ)

def setNode (a : Nat) (n : Node δ) : NodeList δ :=
  { h with node := Function.update h.node a n }

@[simp] theorem setNode_self (h : NodeList δ) (a : Nat) (n : Node δ) : (h.setNode a n).node a = n :=
  Function.update_self _ _ _

theorem setNode_of_ne (other : b ≠ a) : (h.setNode a n).node b = h.node b :=
  Function.update_of_ne other _ _

@[simp] theorem setNode_head (h : NodeList δ) (a : Nat) (n : Node δ) :
    (h.setNode a n).head = h.head := rfl

@[simp] theorem setNode_tail (h : NodeList δ) :
    (h.setNode a n).tail = h.tail := rfl

def setData (a : Nat) (x : δ) : NodeList δ :=
  h.setNode a { h.node a with data := x }

/-- The node at `next` points back to `a`; if there is none, `a` is the last one. -/
def backLink (next a : Nat) : NodeList δ :=
  if next = 0 then { h with tail := a }
  else h.setNode next { h.node next with prev := a }

/-- A node at `b` with data `y` behind the one at `a`, whose data becomes `x`. -/
def insertAfter (a b : Nat) (x y : δ) : NodeList δ :=
  let h := h.setNode b ⟨y, a, (h.node a).next⟩
  let h := h.backLink (h.node b).next b
  h.setNode a ⟨x, (h.node a).prev, b⟩

/-- The node at `a` takes the place of the one at `b` too; its data becomes `x`. -/
def absorb (a b : Nat) (x : δ) : NodeList δ :=
  let h := h.setNode a ⟨x, (h.node a).prev, (h.node b).next⟩
  h.backLink (h.node a).next a

/-- A node at `b` behind all others. -/
def pushBack (b : Nat) (y : δ) : NodeList δ :=
  let last := h.tail
  let h := h.setNode b ⟨y, last, 0⟩
  let h := if last = 0 then { h with head := b } else h.setNode last { h.node last with next := b }
  { h with tail := b }

/-- The first node from `a` on whose data passes the test. -/
def find (test : δ → Bool) : Nat → Nat → Option Nat
  | 0, _ => none
  | fuel + 1, a =>
    if a = 0 then none
    else if test (h.node a).data then some a
    else find test fuel (h.node a).next

end NodeList

section Segments

variable (key : β → Nat) (data : β → δ)

/-- The address of the first value, or `stop`. -/
def firstKey (stop : Nat) : List β → Nat
  | [] => stop
  | b :: _ => key b

/-- The address of the last value, or `start`. -/
def lastKey (start : Nat) : List β → Nat
  | [] => start
  | b :: bs => lastKey (key b) bs

/-- The nodes hold the values in this order, between the neighbours `prev` and `stop`. -/
def Segment (node : Nat → Node δ) : Nat → List β → Nat → Prop
  | _, [], _ => True
  | prev, b :: bs, stop =>
    node (key b) = ⟨data b, prev, firstKey key stop bs⟩ ∧ Segment node (key b) bs stop

/-- The values that are reached from the head. -/
structure Represents (h : NodeList δ) (bs : List β) : Prop where
  head : h.head = firstKey key 0 bs
  tail : h.tail = lastKey key 0 bs
  nodes : Segment key data h.node 0 bs 0
  real : ∀ b ∈ bs, key b ≠ 0
  distinct : (bs.map key).Nodup

end Segments

variable {key : β → Nat} {data : β → δ} {node node' : Nat → Node δ}

@[simp] theorem firstKey_append : firstKey key stop (l ++ r) = firstKey key (firstKey key stop r) l := by
  cases l <;> rfl

@[simp] theorem lastKey_append (start : Nat) :
    lastKey key start (l ++ r) = lastKey key (lastKey key start l) r := by
  induction l generalizing start with
  | nil => rfl
  | cons b l ih => exact ih (key b)

namespace Segment

theorem append :
    Segment key data node prev (l ++ r) stop ↔
      Segment key data node prev l (firstKey key stop r) ∧
        Segment key data node (lastKey key prev l) r stop := by
  induction l generalizing prev with
  | nil => simp [Segment, lastKey]
  | cons b l ih => simp [Segment, lastKey, ih, and_assoc]

theorem congr (seg : Segment key data node prev l stop)
    (same : ∀ b ∈ l, node' (key b) = node (key b)) : Segment key data node' prev l stop := by
  induction l generalizing prev with
  | nil => trivial
  | cons b l ih =>
    have rest := ih seg.2 fun c inside => same c (List.mem_cons_of_mem b inside)
    exact ⟨(same b List.mem_cons_self).trans seg.1, rest⟩

theorem data_eq (seg : Segment key data node prev l stop) (inside : b ∈ l) : (node (key b)).data = data b := by
  induction l generalizing prev with
  | nil => cases inside
  | cons c l ih =>
    cases inside with
    | head => rw [seg.1]
    | tail _ inside => exact ih seg.2 inside

end Segment

section BackLink

variable {h : NodeList δ} {r : List β} {prev a : Nat}

theorem NodeList.backLink_head : (h.backLink prev a).head = h.head := by
  unfold NodeList.backLink
  split <;> rfl

theorem NodeList.backLink_node (other : ∀ x ∈ r, key x ≠ n) :
    (h.backLink (firstKey key 0 r) a).node n = h.node n := by
  unfold NodeList.backLink
  cases r with
  | nil => rfl
  | cons b r =>
    split
    · rfl
    · exact Function.update_of_ne (other b List.mem_cons_self).symm _ _

theorem NodeList.backLink_tail (real : ∀ x ∈ r, key x ≠ 0) (tail : h.tail = lastKey key prev r) :
    (h.backLink (firstKey key 0 r) a).tail = lastKey key a r := by
  unfold NodeList.backLink
  cases r with
  | nil => rfl
  | cons b r =>
    rw [if_neg (show firstKey key 0 (b :: r) ≠ 0 from real b List.mem_cons_self)]
    exact tail

theorem Segment.backLink (seg : Segment key data h.node prev r 0) (real : ∀ x ∈ r, key x ≠ 0)
    (distinct : (r.map key).Nodup) :
    Segment key data (h.backLink (firstKey key 0 r) a).node a r 0 := by
  unfold NodeList.backLink
  cases r with
  | nil => trivial
  | cons b r =>
    rw [if_neg (show firstKey key 0 (b :: r) ≠ 0 from real b List.mem_cons_self)]
    have behind := (List.nodup_cons.mp distinct).1
    refine ⟨?_, seg.2.congr fun x inside => ?_⟩
    · show Function.update h.node (key b) _ (key b) = _
      rw [Function.update_self]
      exact congrArg (fun n : Node δ => { n with prev := a }) seg.1
    · apply Function.update_of_ne
      intro same
      exact behind ((show key x = key b from same) ▸ List.mem_map_of_mem inside)

end BackLink

namespace Represents

variable {h : NodeList δ} {l r : List β} {a b : β}

section

variable (rep : Represents key data h (l ++ a :: r))

include rep

theorem split :
    Segment key data h.node 0 l (key a) ∧
      h.node (key a) = ⟨data a, lastKey key 0 l, firstKey key 0 r⟩ ∧
      Segment key data h.node (key a) r 0 :=
  Segment.append.mp rep.nodes

/-- The addresses before, at and behind a place are distinct. -/
theorem apart : (∀ x ∈ l, key x ≠ key a) ∧ (∀ x ∈ r, key x ≠ key a) ∧ ∀ x ∈ l, ∀ y ∈ r, key x ≠ key y := by
  have nodup := rep.distinct
  simp only [List.map_append, List.map_cons, List.nodup_append, List.nodup_cons,
    List.mem_map, List.mem_cons] at nodup
  refine ⟨fun x inside => ?_, fun x inside same => ?_, fun x inside y behind => ?_⟩
  · exact nodup.2.2 _ ⟨x, inside, rfl⟩ _ (.inl rfl)
  · exact nodup.2.1.1 ⟨x, inside, same⟩
  · exact nodup.2.2 _ ⟨x, inside, rfl⟩ _ (.inr ⟨y, behind, rfl⟩)

theorem node_data : (h.node (key a)).data = data a := by
  rw [rep.split.2.1]

theorem real_behind : ∀ c ∈ r, key c ≠ 0 :=
  fun c inside => rep.real c (List.mem_append_right _ (List.mem_cons_of_mem a inside))

theorem tail_behind : h.tail = lastKey key (key a) r := by
  have tail := rep.tail
  rwa [lastKey_append] at tail

theorem nodup_behind : (r.map key).Nodup := by
  have nodup := rep.distinct
  rw [List.map_append] at nodup
  exact (List.nodup_cons.mp nodup.of_append_right).2

end

/-! ## The operations

Each leaves what is before the node at `a` alone and says what is behind it. -/

theorem behind_changed (rep : Represents key data h (l ++ a :: s))
    (kept : key a' = key a) (head : h'.head = h.head) (before : ∀ x ∈ l, h'.node (key x) = h.node (key x))
    (here : h'.node (key a) = ⟨data a', (h.node (key a)).prev, firstKey key 0 s'⟩)
    (behind : Segment key data h'.node (key a) s' 0) (tail : h'.tail = lastKey key (key a) s')
    (real : ∀ x ∈ s', key x ≠ 0) (distinct : ((l ++ a :: s').map key).Nodup) :
    Represents key data h' (l ++ a' :: s') := by
  obtain ⟨left, node_a, -⟩ := rep.split
  constructor
  · rw [head, rep.head, firstKey_append, firstKey_append]
    simp only [firstKey, kept]
  · rw [tail, lastKey_append]
    simp only [lastKey, kept]
  · refine Segment.append.mpr ⟨?_, ?_, ?_⟩
    · simp only [firstKey, kept]
      exact left.congr before
    · rw [kept, here, node_a]
    · rw [kept]
      exact behind
  · intro x inside
    rcases List.mem_append.mp inside with inside | inside
    · exact rep.real x (List.mem_append_left _ inside)
    · cases inside with
      | head => exact kept ▸ rep.real a (List.mem_append_right _ List.mem_cons_self)
      | tail _ inside => exact real x inside
  · simpa only [List.map_append, List.map_cons, kept] using distinct

theorem setData (rep : Represents key data h (l ++ a :: r)) (kept : key a' = key a)
    (entered : data a' = x) : Represents key data (h.setData (key a) x) (l ++ a' :: r) := by
  obtain ⟨-, here, behind⟩ := rep.split
  obtain ⟨left, right, -⟩ := rep.apart
  refine rep.behind_changed kept (NodeList.setNode_head ..) ?_ ?_ ?_ ?_ rep.real_behind rep.distinct
  · intro y inside
    exact h.setNode_of_ne (left y inside)
  · rw [NodeList.setData, NodeList.setNode_self, here, entered]
  · exact behind.congr fun y inside => h.setNode_of_ne (right y inside)
  · exact rep.tail_behind

theorem insertAfter (rep : Represents key data h (l ++ a :: r))
    (kept : key a' = key a) (entered : data a' = x) (added : data b = y) (nonzero : key b ≠ 0)
    (fresh : ∀ c ∈ l ++ a :: r, key c ≠ key b) :
    Represents key data (h.insertAfter (key a) (key b) x y) (l ++ a' :: b :: r) := by
  obtain ⟨-, here, behind⟩ := rep.split
  obtain ⟨left, right, across⟩ := rep.apart
  have fresh_a : key a ≠ key b := fresh a (List.mem_append_right _ List.mem_cons_self)
  have fresh_r : ∀ c ∈ r, key c ≠ key b := fun c inside =>
    fresh c (List.mem_append_right _ (List.mem_cons_of_mem a inside))
  -- The new node first, then the link back to it, then the node it is put behind.
  obtain ⟨h₁, made⟩ : ∃ h₁, h₁ = h.setNode (key b) ⟨y, key a, firstKey key 0 r⟩ := ⟨_, rfl⟩
  have node_b : h₁.node (key b) = ⟨y, key a, firstKey key 0 r⟩ := by rw [made, NodeList.setNode_self]
  have same₁ : ∀ {n}, n ≠ key b → h₁.node n = h.node n := by
    intro n other
    rw [made, h.setNode_of_ne other]
  have behind₁ : Segment key data h₁.node (key a) r 0 :=
    behind.congr fun c inside => same₁ (fresh_r c inside)
  obtain ⟨h₂, linked⟩ : ∃ h₂, h₂ = h₁.backLink (firstKey key 0 r) (key b) := ⟨_, rfl⟩
  have same₂ : ∀ {n}, (∀ c ∈ r, key c ≠ n) → h₂.node n = h₁.node n := by
    intro n other
    rw [linked, NodeList.backLink_node other]
  have node_a : h₂.node (key a) = h.node (key a) := by rw [same₂ right, same₁ fresh_a]
  have result : h.insertAfter (key a) (key b) x y
      = h₂.setNode (key a) ⟨x, (h.node (key a)).prev, key b⟩ := by
    simp only [NodeList.insertAfter, here]
    rw [← made, node_b, ← linked, node_a, here]
  rw [result]
  refine rep.behind_changed kept ?_ ?_ ?_ ⟨?_, ?_⟩ ?_ ?_ ?_
  · rw [NodeList.setNode_head, linked, NodeList.backLink_head, made, NodeList.setNode_head]
  · intro c inside
    rw [h₂.setNode_of_ne (left c inside), same₂ fun z behind => (across c inside z behind).symm,
      same₁ (fresh c (List.mem_append_left _ inside))]
  · rw [NodeList.setNode_self, entered]
    rfl
  · rw [h₂.setNode_of_ne fresh_a.symm, same₂ fresh_r, node_b, added]
  · have relinked := behind₁.backLink rep.real_behind rep.nodup_behind (a := key b)
    rw [← linked] at relinked
    exact relinked.congr fun c inside => h₂.setNode_of_ne (right c inside)
  · have tail₁ : h₁.tail = lastKey key (key a) r := by rw [made, NodeList.setNode_tail, rep.tail_behind]
    rw [NodeList.setNode_tail, linked, NodeList.backLink_tail rep.real_behind tail₁]
    rfl
  · intro c inside
    cases inside with
    | head => exact nonzero
    | tail _ inside => exact rep.real_behind c inside
  · have spread : ((l ++ a :: b :: r).map key).Perm (key b :: (l ++ a :: r).map key) := by
      simp only [List.map_append]
      exact ((List.Perm.swap _ _ _).append_left _).trans List.perm_middle
    refine spread.nodup_iff.mpr (List.nodup_cons.mpr ⟨?_, rep.distinct⟩)
    rw [List.mem_map]
    rintro ⟨c, inside, same⟩
    exact fresh c inside same

theorem absorb (rep : Represents key data h (l ++ a :: b :: r)) (kept : key a' = key a) (entered : data a' = x) :
    Represents key data (h.absorb (key a) (key b) x) (l ++ a' :: r) := by
  obtain ⟨-, here, node_b, behind⟩ := rep.split
  obtain ⟨left, right, across⟩ := rep.apart
  have right_r : ∀ c ∈ r, key c ≠ key a := fun c inside => right c (List.mem_cons_of_mem b inside)
  have real : ∀ c ∈ r, key c ≠ 0 := fun c inside => rep.real_behind c (List.mem_cons_of_mem b inside)
  obtain ⟨h₁, made⟩ :
      ∃ h₁, h₁ = h.setNode (key a) ⟨x, (h.node (key a)).prev, firstKey key 0 r⟩ := ⟨_, rfl⟩
  have same₁ : ∀ {n}, n ≠ key a → h₁.node n = h.node n := by
    intro n other
    rw [made, h.setNode_of_ne other]
  have node_a : h₁.node (key a) = ⟨x, (h.node (key a)).prev, firstKey key 0 r⟩ := by
    rw [made, NodeList.setNode_self]
  have behind₁ : Segment key data h₁.node (key b) r 0 :=
    behind.congr fun c inside => same₁ (right_r c inside)
  have tail₁ : h₁.tail = lastKey key (key b) r := by rw [made, NodeList.setNode_tail, rep.tail_behind]; rfl
  have result : h.absorb (key a) (key b) x = h₁.backLink (firstKey key 0 r) (key a) := by
    simp only [NodeList.absorb, node_b]
    rw [← made, node_a]
  rw [result]
  refine rep.behind_changed kept ?_ ?_ ?_ ?_ ?_ real ?_
  · rw [NodeList.backLink_head, made, NodeList.setNode_head]
  · intro c inside
    rw [NodeList.backLink_node fun z behind => (across c inside z (List.mem_cons_of_mem b behind)).symm,
      same₁ (left c inside)]
  · rw [NodeList.backLink_node right_r, node_a, entered]
  · exact behind₁.backLink real (List.nodup_cons.mp rep.nodup_behind).2
  · exact NodeList.backLink_tail real tail₁
  · refine rep.distinct.sublist (List.Sublist.map key ?_)
    exact (List.Sublist.refl l).append (List.Sublist.cons_cons a (List.sublist_cons_self b r))

theorem pushBack (rep : Represents key data h bs) (added : data b = y)
    (nonzero : key b ≠ 0) (fresh : ∀ c ∈ bs, key c ≠ key b) :
    Represents key data (h.pushBack (key b) y) (bs ++ [b]) := by
  rcases List.eq_nil_or_concat bs with rfl | ⟨l, a, rfl⟩
  · have none : h.tail = 0 := rep.tail
    rw [NodeList.pushBack, none]
    refine ⟨rfl, rfl, ⟨?_, trivial⟩, ?_, List.nodup_singleton _⟩
    · exact (NodeList.setNode_self ..).trans (by rw [added]; rfl)
    · intro c inside
      rwa [List.mem_singleton.mp inside]
  · rw [List.concat_eq_append] at rep fresh ⊢
    rw [List.append_assoc]
    obtain ⟨-, here, -⟩ := rep.split
    have last : h.tail = key a := rep.tail_behind
    have real : key a ≠ 0 := rep.real a (List.mem_append_right _ List.mem_cons_self)
    have fresh_a : key a ≠ key b := fresh a (List.mem_append_right _ List.mem_cons_self)
    rw [NodeList.pushBack, last, if_neg real]
    refine rep.behind_changed (rfl : key a = key a) rfl ?_ ?_ ⟨?_, trivial⟩ rfl ?_ ?_
    · intro c inside
      exact (NodeList.setNode_of_ne _ (rep.apart.1 c inside)).trans
        (h.setNode_of_ne (fresh c (List.mem_append_left _ inside)))
    · refine (NodeList.setNode_self ..).trans ?_
      rw [h.setNode_of_ne fresh_a, here]
      rfl
    · refine (NodeList.setNode_of_ne _ fresh_a.symm).trans ?_
      rw [NodeList.setNode_self, added]
      rfl
    · intro c inside
      rwa [List.mem_singleton.mp inside]
    · have spread : ((l ++ a :: [b]).map key) = (l ++ [a]).map key ++ [key b] := by simp
      refine (congrArg List.Nodup spread).mpr (List.nodup_append.mpr ?_)
      refine ⟨rep.distinct, List.nodup_singleton _, ?_⟩
      intro n inside m same
      obtain ⟨c, present, rfl⟩ := List.mem_map.mp inside
      exact List.mem_singleton.mp same ▸ fresh c present

theorem find_segment (seg : Segment key data h.node prev bs 0)
    (real : ∀ c ∈ bs, key c ≠ 0) (enough : bs.length < fuel) :
    h.find test fuel (firstKey key 0 bs) = (bs.find? fun c => test (data c)).map key := by
  induction bs generalizing prev fuel with
  | nil =>
    obtain ⟨fuel, rfl⟩ := Nat.exists_eq_succ_of_ne_zero (Nat.ne_of_gt enough)
    rfl
  | cons c bs ih =>
    obtain ⟨fuel, rfl⟩ := Nat.exists_eq_succ_of_ne_zero (Nat.ne_of_gt (Nat.zero_lt_of_lt enough))
    have rest := ih seg.2 (fun d inside => real d (List.mem_cons_of_mem c inside))
      (Nat.lt_of_succ_lt_succ enough)
    have real_c : firstKey key 0 (c :: bs) ≠ 0 := real c List.mem_cons_self
    rw [NodeList.find, if_neg real_c]
    simp only [firstKey, seg.1, List.find?_cons]
    cases test (data c) with
    | true => rfl
    | false => exact rest

/-- Following the list from its head finds the first value that passes the test. -/
theorem find_head (rep : Represents key data h bs) (enough : bs.length < fuel) :
    h.find test fuel h.head = (bs.find? fun c => test (data c)).map key := by
  rw [rep.head]
  exact find_segment rep.nodes rep.real enough

end Represents

end TangPingOS.Lib
