import Mathlib.Order.Basic

/-! # Loops that work in chunks

`len` elements are handed on in chunks of at most `size`: each round fetches the next chunk
and stores it. A round that fails ends the loop, and what the rounds before it did stays.
-/

namespace TangPingOS.Lib

section Chunks

variable {α τ : Type} (size len : Nat) (fetch : Nat → Nat → τ → Option (List α))
  (store : Nat → List α → τ → Option Nat × τ)

/-- One round, with `done` elements behind it. It fails unless the whole chunk is stored. -/
def chunkRound (done : Nat) (t : τ) : Option Nat × τ :=
  match fetch done (min size (len - done)) t with
  | none => (none, t)
  | some chunk =>
    match store done chunk t with
    | (none, t) => (none, t)
    | (some count, t) => if count = min size (len - done) then (some count, t) else (none, t)

/-- The loop; the number of rounds is a bound on how many it takes. -/
def chunks : Nat → Nat → τ → Option Nat × τ
  | 0, _, t => (none, t)
  | rounds + 1, done, t =>
    if len ≤ done then (some done, t)
    else
      match chunkRound size len fetch store done t with
      | (none, t) => (none, t)
      | (some count, t) => chunks rounds (done + count) t

end Chunks

section Spec

variable {α τ : Type} {size len : Nat} {fetch : Nat → Nat → τ → Option (List α)}
  {store : Nat → List α → τ → Option Nat × τ} {inv : Nat → τ → Prop} {fits : Nat → Prop}

/-- A round does its chunk and keeps the invariant, or it does nothing because the chunk does not fit. -/
def ChunkStep (size len : Nat) (fetch : Nat → Nat → τ → Option (List α))
    (store : Nat → List α → τ → Option Nat × τ) (inv : Nat → τ → Prop) (fits : Nat → Prop) : Prop :=
  ∀ done t, inv done t → done < len →
    (∃ t', chunkRound size len fetch store done t = (some (min size (len - done)), t') ∧
      inv (done + min size (len - done)) t') ∨
    (chunkRound size len fetch store done t = (none, t) ∧ ¬fits done)

/-- What a loop comes to: all is done, or it stops before a chunk that does not fit. -/
theorem chunks_spec (step : ChunkStep size len fetch store inv fits) (positive : 0 < size)
    (enough : len < rounds + done) (within : done ≤ len) (start : inv done t) :
    (∃ t', chunks size len fetch store rounds done t = (some len, t') ∧ inv len t') ∨
    (∃ stop t', chunks size len fetch store rounds done t = (none, t') ∧ inv stop t' ∧ stop < len ∧
      ¬fits stop ∧ ∃ round, stop = done + size * round) := by
  induction rounds generalizing done t with
  | zero => omega
  | succ rounds ih =>
    unfold chunks
    split
    · have whole : done = len := by omega
      subst whole
      exact .inl ⟨t, rfl, start⟩
    · obtain ⟨t₁, ran, kept⟩ | ⟨ran, refused⟩ := step done t start (by omega)
      · rw [ran]
        obtain ⟨t', ran, kept⟩ | ⟨stop, t', ran, kept, inside, refused, round, rfl⟩ :=
          ih (by omega) (by omega) kept
        · exact .inl ⟨t', ran, kept⟩
        · -- the chunk was not the last one, so it was a whole one
          have whole : min size (len - done) = size := by omega
          refine .inr ⟨_, t', ran, kept, inside, refused, round + 1, ?_⟩
          rw [Nat.mul_add]
          omega
      · rw [ran]
        exact .inr ⟨done, t, rfl, start, by omega, refused, 0, by omega⟩

theorem chunks_keep {P : τ → Prop} (step : ∀ done chunk t, P t → P (store done chunk t).2)
    (start : P t) : P (chunks size len fetch store rounds done t).2 := by
  induction rounds generalizing done t with
  | zero => exact start
  | succ rounds ih =>
    have kept : P (chunkRound size len fetch store done t).2 := by
      unfold chunkRound
      split
      · exact start
      · rename_i chunk _
        have kept := step done chunk t start
        split
        · rename_i stored
          rw [stored] at kept
          exact kept
        · rename_i stored
          rw [stored] at kept
          split <;> exact kept
    unfold chunks
    split
    · exact start
    · split
      · rename_i ran
        rw [ran] at kept
        exact kept
      · rename_i ran
        rw [ran] at kept
        exact ih kept

theorem chunkRound_done (fetched : fetch done (min size (len - done)) t = some chunk)
    (stored : store done chunk t = (some (min size (len - done)), t')) :
    chunkRound size len fetch store done t = (some (min size (len - done)), t') := by
  simp [chunkRound, fetched, stored]

theorem chunkRound_refused
    (fetched : fetch done (min size (len - done)) t = some chunk) (refused : store done chunk t = (none, t')) :
    chunkRound size len fetch store done t = (none, t') := by
  simp only [chunkRound, fetched, refused]

end Spec

end TangPingOS.Lib
