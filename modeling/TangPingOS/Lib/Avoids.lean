import Mathlib.Logic.Basic

/-! # Computations that avoid an error

What it takes to show that a computation in `Except` never ends with a given error: one
rule for each way in which it is put together.
-/

namespace TangPingOS.Lib

variable {ε α β : Type} {e : ε}

/-- The computation does not end with the error `e`. -/
structure Avoids (e : ε) (x : Except ε α) : Prop where
  ne : x ≠ .error e

namespace Avoids

theorem ok (a : α) : Avoids e (.ok a) := ⟨nofun⟩

theorem error (apart : other ≠ e) : Avoids e (.error other : Except ε α) :=
  ⟨fun same => apart (Except.error.inj same)⟩

theorem bind {f : α → Except ε β} (first : Avoids e x) (rest : ∀ a, Avoids e (f a)) : Avoids e (x >>= f) := by
  cases x with
  | error other => exact error fun same => first.ne (congrArg Except.error same)
  | ok a => exact rest a

theorem map {f : α → β} (avoids : Avoids e x) : Avoids e (x.map f) := by
  cases x with
  | error other => exact error fun same => avoids.ne (congrArg Except.error same)
  | ok a => exact ok (f a)

theorem ite [Decidable c] {x y : Except ε α} (yes : Avoids e x) (no : Avoids e y) :
    Avoids e (if c then x else y) := by
  split
  · exact yes
  · exact no

theorem foldlM (step : ∀ b a, Avoids e (f b a)) (b : β) (l : List α) : Avoids e (l.foldlM f b) := by
  induction l generalizing b with
  | nil => exact ok b
  | cons a l ih => exact bind (step b a) fun b => ih b

end Avoids

end TangPingOS.Lib
