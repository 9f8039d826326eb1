import Mathlib

/-! # State shared with a device

A program and a device work on one state. The program's accesses are counted, and before
each of them the device takes any number of actions: the schedule says which. What the
device's actions keep is kept while the program waits, and a device that can do nothing is
not noticed.
-/

namespace TangPingOS.Lib

/-- The shared state, and what the device will do before each of the next accesses. -/
structure Shared (σ ι : Type) where
  state : σ
  schedule : Nat → List ι

namespace Shared

variable {σ ι : Type} (act : ι → σ → σ)

def step (s : Shared σ ι) : Shared σ ι where
  state := (s.schedule 0).foldl (fun t i => act i t) s.state
  schedule := fun n => s.schedule (n + 1)

def stores : List (σ → σ) → Shared σ ι → Shared σ ι
  | [], s => s
  | f :: fs, s => stores fs { s.step act with state := f (s.step act).state }

def poll (ready : σ → Bool) : Nat → Shared σ ι → Bool × Shared σ ι
  | 0, s => (false, s)
  | left + 1, s => if ready (s.step act).state then (true, s.step act) else poll ready left (s.step act)

variable {act} {P : σ → Prop} {s : Shared σ ι}

theorem step_keeps (keeps : ∀ i t, P t → P (act i t)) (start : P s.state) :
    P (s.step act).state := by
  unfold step
  induction s.schedule 0 generalizing s with
  | nil => exact start
  | cons i rest ih => exact ih (s := { s with state := act i s.state }) (keeps i _ start)

/-- The stores keep step with the same stores on a state the device does not see. -/
theorem stores_related {R : σ → σ → Prop} (acts : ∀ i t u, R t u → R (act i t) u)
    (stored : ∀ f ∈ fs, ∀ t u, R t u → R (f t) (f u)) (start : R s.state u) :
    R (s.stores act fs).state (fs.foldl (fun t f => f t) u) := by
  induction fs generalizing s u with
  | nil => exact start
  | cons f fs ih =>
    have first : R (f (s.step act).state) (f u) :=
      stored f List.mem_cons_self _ _ (step_keeps (P := (R · u)) (fun i t => acts i t u) start)
    exact ih (fun g later => stored g (List.mem_cons_of_mem _ later)) first

theorem stores_keep (keeps : ∀ i t, P t → P (act i t))
    (stored : ∀ f ∈ fs, ∀ t, P t → P (f t)) (start : P s.state) :
    P (s.stores act fs).state :=
  stores_related (R := fun t _ => P t) (fun i t _ => keeps i t) (fun f member t _ => stored f member t)
    (u := s.state) start

/-- While the device can do nothing, the stores are all that happens. -/
theorem stores_still (still : ∀ i t, P t → act i t = t)
    (stored : ∀ f ∈ fs, ∀ t, P t → P (f t)) (start : P s.state) :
    (s.stores act fs).state = fs.foldl (fun t f => f t) s.state ∧ P (s.stores act fs).state := by
  refine stores_related (R := fun t u => t = u ∧ P t) ?_ ?_ ⟨rfl, start⟩
  · rintro i t u ⟨rfl, holds⟩
    rw [still i t holds]
    exact ⟨rfl, holds⟩
  · rintro f member t u ⟨rfl, holds⟩
    exact ⟨rfl, stored f member t holds⟩

theorem poll_keeps (keeps : ∀ i t, P t → P (act i t)) (ready : σ → Bool) (left : Nat)
    (start : P s.state) : P (s.poll act ready left).2.state := by
  induction left generalizing s with
  | zero => exact start
  | succ left ih =>
    unfold poll
    split
    · exact step_keeps keeps start
    · exact ih (step_keeps keeps start)

theorem stores_append (s : Shared σ ι) : s.stores act (fs ++ gs) = (s.stores act fs).stores act gs := by
  induction fs generalizing s with
  | nil => rfl
  | cons f fs ih => exact ih _

theorem step_still (still : ∀ i t, P t → act i t = t) (start : P s.state) :
    (s.step act).state = s.state := by
  refine step_keeps (P := (· = s.state)) ?_ rfl
  rintro i t rfl
  exact still i _ start

/-- What stores do is decided by what the device does first. -/
theorem stores_ahead {s t : Shared σ ι} (same : s.step act = t.step act) :
    s.stores act (f :: fs) = t.stores act (f :: fs) := by
  unfold stores
  rw [same]

theorem stores_schedule (s : Shared σ ι) : (s.stores act fs).schedule n = s.schedule (n + fs.length) := by
  induction fs generalizing s with
  | nil => rfl
  | cons f fs ih => exact ih _

theorem poll_first (some_ : 0 < left)
    (seen : ready (s.step act).state) : s.poll act ready left = (true, s.step act) := by
  obtain ⟨left, rfl⟩ := Nat.exists_eq_add_of_lt some_
  rw [poll, if_pos seen]

theorem step_idle (idle : s.schedule 0 = []) :
    s.step act = { s with schedule := fun n => s.schedule (n + 1) } := by
  unfold step
  rw [idle, List.foldl_nil]

theorem stores_idle (idle : ∀ n < fs.length, s.schedule n = []) :
    s.stores act fs = { state := fs.foldl (fun t f => f t) s.state
                        schedule := fun n => s.schedule (n + fs.length) } := by
  induction fs generalizing s with
  | nil => rfl
  | cons f fs ih =>
    rw [stores, step_idle (idle 0 (Nat.zero_lt_succ _))]
    exact ih fun n inside => idle (n + 1) (Nat.succ_lt_succ inside)

theorem poll_idle (idle : ∀ n < left, s.schedule n = []) (waiting : ready s.state = false) :
    s.poll act ready left = (false, { s with schedule := fun n => s.schedule (n + left) }) := by
  induction left generalizing s with
  | zero => rfl
  | succ left ih =>
    rw [poll, step_idle (idle 0 (Nat.zero_lt_succ _)), if_neg (by simp only [waiting]; decide)]
    exact ih (s := ⟨s.state, fun n => s.schedule (n + 1)⟩) (fun n inside => idle (n + 1) (Nat.succ_lt_succ inside))
      waiting

end Shared

end TangPingOS.Lib
