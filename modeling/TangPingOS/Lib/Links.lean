import Mathlib

/-! # Chains in a link table

A link table gives every cell the cell that follows it. A chain is a list of
cells, each linked to the next and the last one to a stop mark. Several owners
hold chains in one table; the rules below say how linking fresh cells, extending
a chain and releasing one act on all of them.
-/

namespace TangPingOS.Lib

variable {α : Type*}

/-- Every cell is linked to the one after it, the last to `stop`. -/
def Linked (next : α → α) (stop : α) : List α → Prop
  | [] => True
  | a :: rest => next a = rest.headD stop ∧ Linked next stop rest

namespace Linked

variable {next next' : α → α} {stop : α}

theorem congr (same : ∀ a ∈ cells, next' a = next a)
    (linked : Linked next stop cells) : Linked next' stop cells := by
  induction cells with
  | nil => trivial
  | cons a rest ih =>
    obtain ⟨here, later⟩ := linked
    refine ⟨?_, ih (fun b member => same b (List.mem_cons_of_mem a member)) later⟩
    rw [same a List.mem_cons_self, here]

theorem suffix (linked : Linked next stop cells) (member : a ∈ cells) :
    ∃ before after, cells = before ++ a :: after ∧ Linked next stop (a :: after) := by
  induction cells with
  | nil => cases member
  | cons b rest ih =>
    rcases List.mem_cons.mp member with rfl | later
    · exact ⟨[], rest, rfl, linked⟩
    · obtain ⟨before, after, split, tail⟩ := ih linked.2 later
      exact ⟨b :: before, after, by rw [split, List.cons_append], tail⟩

end Linked

section Operations

variable {next : α → α} {stop : α}

/-- A cell of the new family is one of the replaced list or an old one of another index. -/
theorem mem_update_cases {ι : Type*} [DecidableEq ι] {cells : ι → List α} {i j : ι} {new : List α}
    {a : α} (member : a ∈ Function.update cells i new j) :
    (j = i ∧ a ∈ new) ∨ (j ≠ i ∧ a ∈ cells j) := by
  by_cases here : j = i
  · subst here
    rw [Function.update_self] at member
    exact .inl ⟨rfl, member⟩
  · rw [Function.update_of_ne here] at member
    exact .inr ⟨here, member⟩

/-- Chains of several owners in one table, no cell held twice. -/
structure Owns {ι : Type*} (next : α → α) (stop : α) (cells : ι → List α) : Prop where
  linked : ∀ i, Linked next stop (cells i)
  nodup : ∀ i, (cells i).Nodup
  apart : ∀ i j, i ≠ j → ∀ a ∈ cells i, a ∉ cells j

namespace Owns

variable {ι : Type*} {cells : ι → List α}

/-- Tables that agree on every held cell carry the same chains. -/
theorem congr {next' : α → α} (owns : Owns next stop cells)
    (same : ∀ i, ∀ a ∈ cells i, next' a = next a) : Owns next' stop cells where
  linked i := (owns.linked i).congr (same i)
  nodup := owns.nodup
  apart := owns.apart

/-- An owner whose old cells are given up takes over cells no one holds. -/
theorem replace [DecidableEq ι] {next' : α → α} (owns : Owns next stop cells) {i : ι} {new : List α}
    (linked : Linked next' stop new) (distinct : new.Nodup) (fresh : ∀ j, j ≠ i → ∀ a ∈ new, a ∉ cells j)
    (same : ∀ j, j ≠ i → ∀ a ∈ cells j, next' a = next a) :
    Owns next' stop (Function.update cells i new) where
  linked j := by
    by_cases here : j = i
    · subst here
      rw [Function.update_self]
      exact linked
    · rw [Function.update_of_ne here]
      exact (owns.linked j).congr (same j here)
  nodup j := by
    by_cases here : j = i
    · subst here
      rw [Function.update_self]
      exact distinct
    · rw [Function.update_of_ne here]
      exact owns.nodup j
  apart j k other a member member' := by
    rcases mem_update_cases member with ⟨rfl, mine⟩ | ⟨notJ, old⟩
    · rcases mem_update_cases member' with ⟨same, _⟩ | ⟨notK, old⟩
      · exact other same.symm
      · exact fresh k notK a mine old
    · rcases mem_update_cases member' with ⟨_, mine⟩ | ⟨_, old'⟩
      · exact fresh j notJ a mine old
      · exact owns.apart j k other a old old'

end Owns

/-- Link the cells of a list in their order, the last one to `stop`. -/
def linkCells [DecidableEq α] (stop : α) : List α → (α → α) → α → α
  | [], next => next
  | a :: rest, next => linkCells stop rest (Function.update next a (rest.headD stop))

/-- Give every cell of a list the mark `free`. -/
def freeCells [DecidableEq α] (free : α) (cells : List α) (next : α → α) : α → α :=
  fun a => if a ∈ cells then free else next a

variable [DecidableEq α]

theorem linkCells_outside (outside : a ∉ cells) : linkCells stop cells next a = next a := by
  induction cells generalizing next with
  | nil => rfl
  | cons b rest ih =>
    obtain ⟨other, later⟩ := not_or.mp (mt List.mem_cons.mpr outside)
    rw [linkCells, ih later, Function.update_of_ne other]

theorem linked_linkCells (distinct : cells.Nodup) : Linked (linkCells stop cells next) stop cells := by
  induction cells generalizing next with
  | nil => trivial
  | cons a rest ih =>
    obtain ⟨fresh, later⟩ := List.nodup_cons.mp distinct
    refine ⟨?_, ih later⟩
    rw [linkCells, linkCells_outside fresh, Function.update_self]

theorem linkCells_agree (distinct : cells.Nodup)
    (member : a ∈ cells) : linkCells stop cells next a = linkCells stop cells next' a := by
  induction cells generalizing next next' with
  | nil => cases member
  | cons b rest ih =>
    obtain ⟨fresh, later⟩ := List.nodup_cons.mp distinct
    rcases List.mem_cons.mp member with rfl | inRest
    · simp [linkCells, linkCells_outside fresh]
    · exact ih later inRest

/-- Relinking a cell of a chain to a fresh chain cuts the old tail off and appends the new. -/
theorem Linked.append (linked : Linked next stop (kept ++ tail))
    (distinct : kept.Nodup) (linkedMore : Linked next stop more) (apart : ∀ a ∈ more, a ∉ kept)
    (isLast : kept.getLast? = some last) :
    Linked (Function.update next last (more.headD stop)) stop (kept ++ more) := by
  induction kept with
  | nil => cases isLast
  | cons a rest ih =>
    obtain ⟨fresh, later⟩ := List.nodup_cons.mp distinct
    cases rest with
    | nil =>
      have same : a = last := by simpa using isLast
      subst same
      refine ⟨by simp, linkedMore.congr ?_⟩
      intro b member
      have other : b ≠ a := fun h => apart b member (by simp [h])
      rw [Function.update_of_ne other]
    | cons b after =>
      have isLastTail : (b :: after).getLast? = some last := by simpa using isLast
      have other : a ≠ last := by
        intro h
        exact fresh (h ▸ List.mem_of_getLast? isLastTail)
      refine ⟨?_, ih linked.2 later (fun c member h => apart c member (by simp [h])) isLastTail⟩
      rw [Function.update_of_ne other]
      exact linked.1

namespace Owns

variable {ι : Type*} [DecidableEq ι] {cells : ι → List α} (owns : Owns next stop cells)

include owns

theorem link (i : ι) (distinct : new.Nodup) (fresh : ∀ j, ∀ a ∈ new, a ∉ cells j) :
    Owns (linkCells stop new next) stop (Function.update cells i new) :=
  owns.replace (linked_linkCells distinct) distinct (fun j _ => fresh j) fun j _ _ member =>
    linkCells_outside fun h => fresh j _ h member

/-- An owner keeps the beginning of its chain and goes on with cells no one holds. -/
theorem extend (begins : kept <+: cells i)
    (isLast : kept.getLast? = some last) (distinct : new.Nodup) (fresh : ∀ j, ∀ a ∈ new, a ∉ cells j) :
    Owns (linkCells stop new (Function.update next last (new.headD stop))) stop
      (Function.update cells i (kept ++ new)) := by
  have inside : ∀ a ∈ kept, a ∈ cells i := fun a member => begins.subset member
  have lastMember : last ∈ cells i := inside last (List.mem_of_getLast? isLast)
  have lastOld : last ∉ new := fun h => fresh i last h lastMember
  have keptOnce : kept.Nodup := begins.sublist.nodup (owns.nodup i)
  have outside : ∀ j, j ≠ i → ∀ a ∈ cells j,
      linkCells stop new (Function.update next last (new.headD stop)) a = next a := by
    intro j other a member
    have notLast : a ≠ last := fun h => owns.apart j i other a member (h ▸ lastMember)
    rw [linkCells_outside fun h => fresh j a h member, Function.update_of_ne notLast]
  refine owns.replace ?_ ?_ ?_ outside
  · obtain ⟨tail, split⟩ := begins
    have old : Linked (linkCells stop new next) stop (kept ++ tail) :=
      (split ▸ owns.linked i).congr fun a member =>
        linkCells_outside fun h => fresh i a h (split ▸ member)
    have both := old.append keptOnce (linked_linkCells distinct)
      (fun a member h => fresh i a member (inside a h)) isLast
    refine both.congr fun a member => ?_
    by_cases here : a = last
    · subst here
      rw [linkCells_outside lastOld, Function.update_self, Function.update_self]
    · rw [Function.update_of_ne here]
      by_cases added : a ∈ new
      · exact linkCells_agree distinct added
      · rw [linkCells_outside added, linkCells_outside added, Function.update_of_ne here]
  · exact List.nodup_append.mpr ⟨keptOnce, distinct, fun a h b h' same =>
      fresh i b h' (same ▸ inside a h)⟩
  · intro j other a member
    rcases List.mem_append.mp member with old | added
    · exact owns.apart i j (Ne.symm other) a (inside a old)
    · exact fresh j a added

/-- An owner gives its chain up and some of its cells are marked free. -/
theorem release (held : ∀ a ∈ gone, a ∈ cells i) :
    Owns (freeCells free gone next) stop (Function.update cells i []) :=
  owns.replace trivial List.nodup_nil (fun _ _ _ h => by cases h) fun j other a member => by
    rw [freeCells, if_neg fun h => owns.apart j i other a member (held a h)]

end Owns

end Operations

end TangPingOS.Lib
