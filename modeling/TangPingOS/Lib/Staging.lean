import Mathlib

/-! # Staged updates of a store

A store maps addresses to values. Updates are staged as images of single
addresses, each taken from the store when its address is first asked for, and
the store seen through them is the overlay. Storing an image is an update of the
overlay, and writing the images back one by one turns the store into it.
-/

namespace TangPingOS.Lib

variable {α β : Type*} [DecidableEq α]

/-- The store `base` as seen through the staged images. -/
def overlay (base : α → β) (staged : List (α × β)) : α → β :=
  fun a => (staged.lookup a).getD (base a)

@[simp] theorem overlay_nil (base : α → β) : overlay base [] = base := rfl

theorem overlay_cons (base : α → β) (staged : List (α × β)) :
    overlay base ((a, v) :: staged) = Function.update (overlay base staged) a v := by
  funext b
  by_cases here : b = a
  · subst here
    simp [overlay]
  · have differs : (b == a) = false := beq_false_of_ne here
    simp [overlay, List.lookup, here, differs]

/-- Staging the image an address has already changes nothing. -/
theorem overlay_stage {staged : List (α × β)}
    (unstaged : a ∉ staged.map Prod.fst) : overlay base (staged ++ [(a, base a)]) = overlay base staged := by
  induction staged with
  | nil => simp [overlay_cons]
  | cons image rest ih =>
    obtain ⟨_, later⟩ := not_or.mp (mt List.mem_cons.mpr unstaged)
    rw [List.cons_append, overlay_cons, overlay_cons, ih later]

theorem overlay_replace {base : α → β} (present : a ∈ staged.map Prod.fst) :
    overlay base (staged.map fun image => if image.1 = a then (a, v) else image) =
      Function.update (overlay base staged) a v := by
  induction staged with
  | nil => cases present
  | cons image rest ih =>
    obtain ⟨b, w⟩ := image
    by_cases inRest : a ∈ rest.map Prod.fst
    · by_cases here : b = a
      · subst here
        simp [overlay_cons, ih inRest]
      · simp only [List.map_cons, here, if_false, overlay_cons, ih inRest]
        rw [Function.update_comm here]
    · have here : a = b := (List.mem_cons.mp present).resolve_right inRest
      subst here
      have same : (rest.map fun image => if image.1 = a then (a, v) else image) = rest := by
        refine (List.map_congr_left fun image member => ?_).trans (List.map_id rest)
        have other : image.1 ≠ a := fun h => inRest (h ▸ List.mem_map_of_mem member)
        simp [other]
      simp [same, overlay_cons]

/-- An update of the store below shows through where nothing is staged. -/
theorem overlay_update {a : α} {v : β} (unstaged : a ∉ staged.map Prod.fst) :
    overlay (Function.update base a v) staged = Function.update (overlay base staged) a v := by
  induction staged with
  | nil => rfl
  | cons image rest ih =>
    obtain ⟨other, later⟩ := not_or.mp (mt List.mem_cons.mpr unstaged)
    rw [overlay_cons, overlay_cons, ih later, Function.update_comm other]

theorem overlay_mem {staged : List (α × β)} (distinct : (staged.map Prod.fst).Nodup) (member : (a, v) ∈ staged) :
    overlay base staged a = v := by
  induction staged with
  | nil => cases member
  | cons image rest ih =>
    obtain ⟨fresh, later⟩ := List.nodup_cons.mp distinct
    rw [overlay_cons]
    rcases List.mem_cons.mp member with rfl | inRest
    · exact Function.update_self ..
    · have other : a ≠ image.1 := fun h => fresh (h ▸ List.mem_map_of_mem inRest)
      rw [Function.update_of_ne other, ih later inRest]

end TangPingOS.Lib
