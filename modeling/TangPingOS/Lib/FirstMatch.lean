import Mathlib.Data.List.Basic

/-! # The first element of a list that passes a test

How the answer of a search for the first match changes when the list grows at its end or one
element is replaced.
-/

namespace TangPingOS.Lib

variable {α : Type} {test : α → Bool} {l : List α} {i j : Nat} {a b : α}

/-- Element `i` is `a` and the first one that passes. -/
structure FirstMatch (test : α → Bool) (l : List α) (i : Nat) (a : α) : Prop where
  here : l[i]? = some a
  passes : test a
  earlier : ∀ k c, k < i → l[k]? = some c → test c = false

theorem findIdx?_eq_some_iff_firstMatch : l.findIdx? test = some i ↔ ∃ a, FirstMatch test l i a := by
  rw [List.findIdx?_eq_some_iff_getElem]
  constructor
  · rintro ⟨inside, passes, earlier⟩
    refine ⟨l[i], List.getElem?_eq_getElem inside, passes, fun k c before found => ?_⟩
    have fails := earlier k before
    rw [List.getElem?_eq_getElem (Nat.lt_trans before inside), Option.some.injEq] at found
    rw [← found]
    simpa using fails
  · rintro ⟨a, here, passes, earlier⟩
    obtain ⟨inside, isHere⟩ := List.getElem?_eq_some_iff.mp here
    refine ⟨inside, isHere ▸ passes, fun k before => ?_⟩
    have fails := earlier k _ before (List.getElem?_eq_getElem (Nat.lt_trans before inside))
    simpa using fails

/-- An element in the place of another one that the test does not tell apart. -/
theorem findIdx?_set_same (here : l[i]? = some a) (same : test b = test a) :
    (l.set i b).findIdx? test = l.findIdx? test := by
  induction l generalizing i with
  | nil => rfl
  | cons c l ih =>
    cases i with
    | zero =>
      rw [List.getElem?_cons_zero, Option.some.injEq] at here
      rw [List.set_cons_zero, List.findIdx?_cons, List.findIdx?_cons, same, here]
    | succ i =>
      rw [List.set_cons_succ, List.findIdx?_cons, List.findIdx?_cons, ih here]

namespace FirstMatch

variable (first : FirstMatch test l i a)

include first

theorem inside : i < l.length :=
  (List.getElem?_eq_some_iff.mp first.here).1

theorem append (more : List α) : FirstMatch test (l ++ more) i a := by
  have inside := first.inside
  refine ⟨(List.getElem?_append_left inside).trans first.here, first.passes, fun k c before found => ?_⟩
  rw [List.getElem?_append_left (Nat.lt_trans before inside)] at found
  exact first.earlier k c before found

/-- An element that does not pass in the place of another one. -/
theorem set_other (other : j ≠ i) (fails : test b = false) : FirstMatch test (l.set j b) i a := by
  refine ⟨(List.getElem?_set_ne other).trans first.here, first.passes, fun k c before found => ?_⟩
  by_cases replaced : j = k
  · subst replaced
    have inside : j < l.length := Nat.lt_trans before first.inside
    rw [List.getElem?_set_self inside, Option.some.injEq] at found
    exact found ▸ fails
  · rw [List.getElem?_set_ne replaced] at found
    exact first.earlier k c before found

/-- An element that does not pass in the place of the first match: the next match is found. -/
theorem set_self_iff (fails : test a' = false) :
    FirstMatch test (l.set i a') j b ↔
      i < j ∧ l[j]? = some b ∧ test b ∧
        ∀ k c, i < k → k < j → l[k]? = some c → test c = false := by
  constructor
  · rintro ⟨here, passes, earlier⟩
    have other : i ≠ j := by
      rintro rfl
      rw [List.getElem?_set_self first.inside, Option.some.injEq] at here
      rw [← here, fails] at passes
      cases passes
    rw [List.getElem?_set_ne other] at here
    have later : i < j := by
      apply Nat.lt_of_le_of_ne _ other
      apply Nat.not_lt.mp
      intro before
      rw [first.earlier j b before here] at passes
      cases passes
    refine ⟨later, here, passes, fun k c low high found => earlier k c high ?_⟩
    rwa [List.getElem?_set_ne (Nat.ne_of_lt low)]
  · rintro ⟨later, here, passes, between⟩
    refine ⟨(List.getElem?_set_ne (Nat.ne_of_lt later)).trans here, passes, fun k c before found => ?_⟩
    obtain less | equal | more := Nat.lt_trichotomy i k
    · rw [List.getElem?_set_ne (Nat.ne_of_lt less)] at found
      exact between k c less before found
    · subst equal
      rw [List.getElem?_set_self first.inside, Option.some.injEq] at found
      exact found ▸ fails
    · rw [List.getElem?_set_ne (Nat.ne_of_gt more)] at found
      exact first.earlier k c more found

end FirstMatch

end TangPingOS.Lib
