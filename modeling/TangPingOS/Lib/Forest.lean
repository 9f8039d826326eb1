import Mathlib.Data.List.Infix
import Mathlib.Data.List.Nodup

/-! # Forests in a table of links

Cells are linked to their children by index. A forest is given by its places, a
root and a path of indices each, closed under shortening the path; no two places
lead to the same cell. The rules say what grafting a cell onto a place, planting
a new root and writing outside the forest do to the cells at its places. The cells of
a subtree are also listed, children first, for what takes a subtree apart.
-/

namespace TangPingOS.Lib

variable {α ι : Type*}

def walk (child : α → ι → Option α) : α → List ι → Option α
  | a, [] => some a
  | a, i :: path => (child a i).bind fun b => walk child b path

section Walk

variable {child child' : α → ι → Option α}

theorem walk_append : walk child a (p ++ q) = (walk child a p).bind fun b => walk child b q := by
  induction p generalizing a with
  | nil => rfl
  | cons i p ih =>
    cases link : child a i with
    | none => simp [walk, link]
    | some b => simp [walk, link, ih]

theorem walk_concat : walk child a (p ++ [i]) = (walk child a p).bind fun b => child b i := by
  rw [walk_append]
  congr 1
  funext b
  cases link : child b i <;> simp [walk, link]

/-- Only the links that a path follows matter to where it leads. -/
theorem walk_congr (same : ∀ p i b, p ++ [i] <+: path → walk child a p = some b → child' b i = child b i) :
    walk child' a path = walk child a path := by
  induction path using List.reverseRecOn with
  | nil => rfl
  | append_singleton p i ih =>
    have before := ih fun q j b le found => same q j b (le.trans (List.prefix_append p [i])) found
    rw [walk_concat, walk_concat, before]
    cases found : walk child a p with
    | none => rfl
    | some b => exact same p i b (List.prefix_refl _) found

end Walk

section

variable (child : α → ι → Option α) (place : α → List ι → Prop)

/-- Every place has a cell of its own. -/
structure Forest : Prop where
  closed : ∀ r p i, place r (p ++ [i]) → place r p
  unshared : ∀ r r' p p' a, place r p → place r' p' → walk child r p = some a →
    walk child r' p' = some a → r = r' ∧ p = p'

def Held (a : α) : Prop :=
  ∃ r p, place r p ∧ walk child r p = some a

end

namespace Forest

variable {child child' : α → ι → Option α} {place place' : α → List ι → Prop}
  (forest : Forest child place)

include forest

theorem closed_prefix (at_ : place r q) (le : p <+: q) : place r p := by
  obtain ⟨rest, rfl⟩ := le
  induction rest using List.reverseRecOn with
  | nil => simpa using at_
  | append_singleton rest i ih =>
    apply ih
    apply forest.closed r (p ++ rest) i
    rwa [List.append_assoc]

section

variable (same : ∀ r p i b, place r (p ++ [i]) → walk child r p = some b → child' b i = child b i)

include same

theorem walk_same (at_ : place r p) : walk child' r p = walk child r p :=
  walk_congr fun q i b le => same r q i b (forest.closed_prefix at_ le)

theorem congr : Forest child' place where
  closed := forest.closed
  unshared r r' p p' a at_ at' found found' := by
    rw [forest.walk_same same at_] at found
    rw [forest.walk_same same at'] at found'
    exact forest.unshared r r' p p' a at_ at' found found'

theorem held_congr : Held child' place a ↔ Held child place a := by
  constructor
  · rintro ⟨r, p, at_, found⟩
    exact ⟨r, p, at_, by rwa [← forest.walk_same same at_]⟩
  · rintro ⟨r, p, at_, found⟩
    exact ⟨r, p, at_, by rwa [forest.walk_same same at_]⟩

end

section Graft

variable {r t q : α} {p : List ι} {i : ι} (at_ : place r (p ++ [i])) (table : walk child r p = some t)
  (fresh : ¬ Held child place q) (link : child' t i = some q)
  (others : ∀ b j, b ≠ q → ¬ (b = t ∧ j = i) → child' b j = child b j)
  (empty : ∀ j, place r (p ++ [i] ++ [j]) → child' q j = none)

include table fresh others

/-- Places that do not lie above the graft keep their cells. -/
theorem walk_graft_other (at' : place r' p') (elsewhere : ¬ (r' = r ∧ p ++ [i] <+: p')) (atP : place r p) :
    walk child' r' p' = walk child r' p' := by
  apply walk_congr
  intro p₁ j b le found
  have at₁ : place r' p₁ := forest.closed_prefix at' ((List.prefix_append p₁ [j]).trans le)
  apply others b j
  · rintro rfl
    exact fresh ⟨r', p₁, at₁, found⟩
  · rintro ⟨rfl, rfl⟩
    obtain ⟨rfl, rfl⟩ := forest.unshared r' r p₁ p b at₁ atP found table
    exact elsewhere ⟨rfl, le⟩

include at_ link

theorem walk_graft : walk child' r (p ++ [i]) = some q := by
  have atP := forest.closed r p i at_
  have below : ¬ (r = r ∧ p ++ [i] <+: p) := by
    rintro ⟨_, le⟩
    have long := le.length_le
    simp only [List.length_append, List.length_singleton] at long
    omega
  rw [walk_concat, forest.walk_graft_other table fresh others atP below atP, table]
  exact link

include empty

theorem walk_graft_above (at' : place r (p ++ [i] ++ j :: rest)) :
    walk child' r (p ++ [i] ++ j :: rest) = none := by
  have split : p ++ [i] ++ j :: rest = p ++ [i] ++ [j] ++ rest := by simp
  rw [split] at at' ⊢
  have here := forest.closed_prefix at' (List.prefix_append (p ++ [i] ++ [j]) rest)
  rw [walk_append, walk_concat, forest.walk_graft at_ table fresh link others, Option.bind_some,
    empty j here, Option.bind_none]

/-- A place after the graft: the graft itself, or an old place with its old cell. -/
theorem walk_graft_cases (at' : place r' p') (found : walk child' r' p' = some a) :
    (r' = r ∧ p' = p ++ [i] ∧ a = q) ∨
      (¬ (r' = r ∧ p ++ [i] <+: p') ∧ walk child r' p' = some a) := by
  by_cases above : r' = r ∧ p ++ [i] <+: p'
  · obtain ⟨rfl, rest, rfl⟩ := above
    cases rest with
    | nil =>
      rw [List.append_nil, forest.walk_graft at_ table fresh link others, Option.some.injEq] at found
      exact .inl ⟨rfl, List.append_nil _, found.symm⟩
    | cons j rest =>
      rw [forest.walk_graft_above at_ table fresh link others empty at'] at found
      cases found
  · have atP := forest.closed r p i at_
    rw [forest.walk_graft_other table fresh others at' above atP] at found
    exact .inr ⟨above, found⟩

theorem graft : Forest child' place where
  closed := forest.closed
  unshared r₁ r₂ p₁ p₂ a at₁ at₂ found₁ found₂ := by
    have cases₁ := forest.walk_graft_cases at_ table fresh link others empty at₁ found₁
    have cases₂ := forest.walk_graft_cases at_ table fresh link others empty at₂ found₂
    rcases cases₁ with ⟨rfl, rfl, rfl⟩ | ⟨_, old₁⟩
    · rcases cases₂ with ⟨rfl, rfl, _⟩ | ⟨_, old₂⟩
      · exact ⟨rfl, rfl⟩
      · exact absurd ⟨r₂, p₂, at₂, old₂⟩ fresh
    · rcases cases₂ with ⟨_, _, rfl⟩ | ⟨_, old₂⟩
      · exact absurd ⟨r₁, p₁, at₁, old₁⟩ fresh
      · exact forest.unshared r₁ r₂ p₁ p₂ a at₁ at₂ old₁ old₂

theorem held_graft (held : Held child' place a) : a = q ∨ Held child place a := by
  obtain ⟨r', p', at', found⟩ := held
  rcases forest.walk_graft_cases at_ table fresh link others empty at' found with ⟨_, _, same⟩ | ⟨_, old⟩
  · exact .inl same
  · exact .inr ⟨r', p', at', old⟩

end Graft

omit forest in
theorem walk_planted {q a : α} {p : List ι} (closed : ∀ r p i, place r (p ++ [i]) → place r p)
    (empty : ∀ j, place q [j] → child q j = none) (at_ : place q p) (found : walk child q p = some a) :
    p = [] ∧ a = q := by
  cases p with
  | nil => exact ⟨rfl, (Option.some.inj found).symm⟩
  | cons j rest =>
    have first : place q [j] := by
      clear found
      induction rest using List.reverseRecOn with
      | nil => exact at_
      | append_singleton rest i ih => exact ih (closed q (j :: rest) i at_)
    rw [walk, empty j first] at found
    cases found

theorem plant {q : α} (fresh : ¬ Held child place q) (more : ∀ r p, place' r p → place r p ∨ r = q)
    (closed : ∀ r p i, place' r (p ++ [i]) → place' r p)
    (empty : ∀ j, place' q [j] → child q j = none) : Forest child place' where
  closed := closed
  unshared r r' p p' a at_ at' found found' := by
    have only {p a} (atQ : place' q p) (there : walk child q p = some a) : p = [] ∧ a = q :=
      walk_planted closed empty atQ there
    have fresh' {r p} (old : place r p) (there : walk child r p = some q) : False :=
      fresh ⟨r, p, old, there⟩
    rcases more r p at_ with old | rfl
    · rcases more r' p' at' with old' | rfl
      · exact forest.unshared r r' p p' a old old' found found'
      · obtain ⟨rfl, rfl⟩ := only at' found'
        exact (fresh' old found).elim
    · obtain ⟨rfl, rfl⟩ := only at_ found
      rcases more r' p' at' with old' | rfl
      · exact (fresh' old' found').elim
      · exact ⟨rfl, (only at' found').1.symm⟩

end Forest

section Cells

variable {child child' : α → Nat → Option α} {width : Nat}

/-- The cells up to `n` links away from a cell, children before their parents. -/
def nodes (child : α → Nat → Option α) (width : Nat) : Nat → α → List α
  | 0, a => [a]
  | n + 1, a => ((List.range width).flatMap fun i => (child a i).elim [] (nodes child width n)) ++ [a]

/-- The cells below the children of `a` with indices from `start` on, `count` of them. -/
def childCells (child : α → Nat → Option α) (width n : Nat) (a : α) (start count : Nat) : List α :=
  (List.range' start count).flatMap fun i => (child a i).elim [] (nodes child width n)

theorem nodes_succ : nodes child width (n + 1) a = childCells child width n a 0 width ++ [a] := by
  rw [nodes, childCells, List.range_eq_range']

theorem childCells_succ :
    childCells child width n a start (count + 1)
      = (child a start).elim [] (nodes child width n) ++ childCells child width n a (start + 1) count := by
  rw [childCells, List.range'_succ, List.flatMap_cons, childCells]

theorem mem_elim {f : α → List α} : b ∈ o.elim [] f ↔ ∃ c, o = some c ∧ b ∈ f c := by
  cases o <;> simp

theorem mem_childCells :
    b ∈ childCells child width n a start count ↔
      ∃ i c, start ≤ i ∧ i < start + count ∧ child a i = some c ∧ b ∈ nodes child width n c := by
  simp only [childCells, List.mem_flatMap, List.mem_range'_1, mem_elim]
  constructor
  · rintro ⟨i, ⟨low, high⟩, c, link, member⟩
    exact ⟨i, c, low, high, link, member⟩
  · rintro ⟨i, c, low, high, link, member⟩
    exact ⟨i, ⟨low, high⟩, c, link, member⟩

theorem mem_nodes :
    b ∈ nodes child width n a ↔
      ∃ p : List Nat, p.length ≤ n ∧ (∀ i ∈ p, i < width) ∧ walk child a p = some b := by
  induction n generalizing a with
  | zero =>
    simp only [nodes, List.mem_singleton, Nat.le_zero, List.length_eq_zero_iff]
    constructor
    · rintro rfl
      exact ⟨[], rfl, nofun, rfl⟩
    · rintro ⟨p, rfl, -, found⟩
      exact (Option.some.inj found).symm
  | succ n ih =>
    rw [nodes_succ, List.mem_append, List.mem_singleton, mem_childCells]
    constructor
    · rintro (⟨i, c, -, high, link, member⟩ | rfl)
      · obtain ⟨p, short, small, found⟩ := ih.mp member
        refine ⟨i :: p, Nat.succ_le_succ short, ?_, ?_⟩
        · intro j inside
          cases inside with
          | head => omega
          | tail _ inside => exact small j inside
        · rw [walk, link]
          exact found
      · exact ⟨[], Nat.zero_le _, nofun, rfl⟩
    · rintro ⟨p, short, small, found⟩
      cases p with
      | nil => exact .inr (Option.some.inj found).symm
      | cons i p =>
        obtain ⟨c, link, rest⟩ := Option.bind_eq_some_iff.mp found
        refine .inl ⟨i, c, Nat.zero_le i, ?_, link, ih.mpr ⟨p, Nat.le_of_succ_le_succ short, ?_, rest⟩⟩
        · have := small i List.mem_cons_self
          omega
        · exact fun j inside => small j (List.mem_cons_of_mem i inside)

def Unshared (child : α → Nat → Option α) (width n : Nat) (a : α) : Prop :=
  ∀ p q b, p.length ≤ n → (∀ i ∈ p, i < width) → q.length ≤ n → (∀ i ∈ q, i < width) →
    walk child a p = some b → walk child a q = some b → p = q

theorem Unshared.down (unshared : Unshared child width (n + 1) a)
    (low : i < width) (link : child a i = some c) : Unshared child width n c := by
  intro p q b shortP smallP shortQ smallQ foundP foundQ
  have whole := unshared (i :: p) (i :: q) b (Nat.succ_le_succ shortP) (List.forall_mem_cons.mpr ⟨low, smallP⟩)
    (Nat.succ_le_succ shortQ) (List.forall_mem_cons.mpr ⟨low, smallQ⟩) (by rw [walk, link]; exact foundP)
    (by rw [walk, link]; exact foundQ)
  exact List.tail_eq_of_cons_eq whole

theorem childCells_nodup
    (each : ∀ i c, start ≤ i → i < start + count → child a i = some c → (nodes child width n c).Nodup)
    (apart : ∀ i j c d b, start ≤ i → i < start + count → start ≤ j → j < start + count →
      child a i = some c → child a j = some d → b ∈ nodes child width n c → b ∈ nodes child width n d →
      i = j) :
    (childCells child width n a start count).Nodup := by
  rw [childCells, List.nodup_flatMap]
  constructor
  · intro i inside
    obtain ⟨low, high⟩ := List.mem_range'_1.mp inside
    cases link : child a i with
    | none => exact List.nodup_nil
    | some c => exact each i c low high link
  · refine List.Pairwise.imp_of_mem ?_ (List.nodup_range' (s := start) (n := count))
    intro i j insideI insideJ differs b memberI memberJ
    obtain ⟨lowI, highI⟩ := List.mem_range'_1.mp insideI
    obtain ⟨lowJ, highJ⟩ := List.mem_range'_1.mp insideJ
    obtain ⟨c, linkI, belowI⟩ := mem_elim.mp memberI
    obtain ⟨d, linkJ, belowJ⟩ := mem_elim.mp memberJ
    exact differs (apart i j c d b lowI highI lowJ highJ linkI linkJ belowI belowJ)

theorem nodes_nodup (unshared : Unshared child width n a) : (nodes child width n a).Nodup := by
  induction n generalizing a with
  | zero => exact List.nodup_singleton a
  | succ n ih =>
    have path {i : Nat} {c b : α} (low : i < width) (link : child a i = some c)
        (member : b ∈ nodes child width n c) :
        ∃ p : List Nat, (i :: p).length ≤ n + 1 ∧ (∀ j ∈ i :: p, j < width) ∧
          walk child a (i :: p) = some b := by
      obtain ⟨p, short, small, found⟩ := mem_nodes.mp member
      refine ⟨p, Nat.succ_le_succ short, List.forall_mem_cons.mpr ⟨low, small⟩, ?_⟩
      rw [walk, link]
      exact found
    rw [nodes_succ, List.nodup_append]
    refine ⟨childCells_nodup ?_ ?_, List.nodup_singleton a, ?_⟩
    · intro i c _ high link
      exact ih (unshared.down (by omega) link)
    · intro i j c d b _ highI _ highJ linkI linkJ memberI memberJ
      obtain ⟨p, shortP, smallP, foundP⟩ := path (by omega) linkI memberI
      obtain ⟨q, shortQ, smallQ, foundQ⟩ := path (by omega) linkJ memberJ
      exact List.head_eq_of_cons_eq (unshared _ _ b shortP smallP shortQ smallQ foundP foundQ)
    · rintro b memberB a' memberA rfl
      rw [List.mem_singleton.mp memberA] at memberB
      obtain ⟨i, c, -, high, link, member⟩ := mem_childCells.mp memberB
      obtain ⟨p, short, small, found⟩ := path (by omega) link member
      have same := unshared _ [] a short small (Nat.zero_le _) nofun found rfl
      cases same

theorem childCells_congr (here : ∀ i, start ≤ i → i < start + count → child' a i = child a i)
    (each : ∀ i c, start ≤ i → i < start + count → child a i = some c →
      nodes child' width n c = nodes child width n c) :
    childCells child' width n a start count = childCells child width n a start count := by
  apply List.flatMap_congr
  intro i inside
  obtain ⟨low, high⟩ := List.mem_range'_1.mp inside
  rw [here i low high]
  cases link : child a i with
  | none => rfl
  | some c => exact each i c low high link

theorem nodes_congr (same : ∀ b ∈ nodes child width n a, ∀ i < width, child' b i = child b i) :
    nodes child' width n a = nodes child width n a := by
  induction n generalizing a with
  | zero => rfl
  | succ n ih =>
    rw [nodes_succ] at same
    rw [nodes_succ, nodes_succ]
    congr 1
    apply childCells_congr
    · intro i _ high
      exact same a (List.mem_append_right _ List.mem_cons_self) i (by omega)
    · intro i c low high link
      apply ih
      intro b member
      apply same b
      exact List.mem_append_left _ (mem_childCells.mpr ⟨i, c, low, high, link, member⟩)

end Cells

end TangPingOS.Lib
