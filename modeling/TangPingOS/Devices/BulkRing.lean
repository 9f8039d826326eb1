import TangPingOS.Devices.XhciRing

/-! # Driver and controller in step

What the driver and the controller share: the events the driver has not read, the state in
which the controller waits where the driver will post its next transfer request block, and the
ring once the block is handed over, with an inactive one or the link behind it.
-/

namespace TangPingOS.Xhci

open Lib

variable {s t u : State} {unread : List Event}

/-- The events that the driver has not read. -/
structure Events (s : State) (unread : List Event) : Prop where
  queue : Unread (fun e : Event => e.trb.cycle) eventRingSegmentTrbs s.eventRing s.eventReader unread
  writer : s.eventWriter = s.eventReader.ahead eventRingSegmentTrbs unread.length
  erdp : s.erdp = s.nextTransferEvent

def Unrelated (s : State) (unread : List Event) : Prop := ∀ e ∈ unread, ¬s.Matches e.trb

theorem cycle_withBit {trb : Trb} :
    Trb.cycle { trb with control := trb.control / 2 * 2 + trbCycle cycle } = cycle := by
  unfold Trb.cycle trbCycle
  cases cycle with
  | false => simp
  | true =>
    rw [beq_iff_eq]
    change (trb.control / 2 * 2 + 1) % 2 = 1
    omega

theorem type_withBit (trb : Trb) :
    Trb.type { trb with control := trb.control / 2 * 2 + trbCycle cycle } = trb.type := by
  have small : trbCycle cycle ≤ 1 := Bool.toNat_le cycle
  simp only [Trb.type, typeShift]
  omega

theorem slotId_withBit (trb : Trb) :
    Trb.slotId { trb with control := trb.control / 2 * 2 + trbCycle cycle } = trb.slotId := by
  have small : trbCycle cycle ≤ 1 := Bool.toNat_le cycle
  simp only [Trb.slotId]
  omega

theorem matches_withBit :
    s.Matches { trb with control := trb.control / 2 * 2 + trbCycle cycle } ↔ s.Matches trb := by
  unfold State.Matches
  rw [type_withBit, slotId_withBit]

theorem transferEvent_matches (bounded : s.endpoint < 32) (index word2 : Nat) :
    s.Matches (s.transferEvent index word2) := by
  unfold State.Matches Trb.type Trb.slotId State.transferEvent transferEventType typeShift
  constructor <;> simp only <;> omega

def stored (s : State) (trb : Trb) (source : Option Nat) : Event where
  trb := { trb with control := trb.control / 2 * 2 + trbCycle s.eventWriter.cycle }
  source := source

theorem Events.post (events : Events s unread) (room : s.eventRingFull = false) (trb : Trb) (source : Option Nat) :
    Events (s.postEvent trb source) (unread ++ [stored s trb source]) := by
  have few : unread.length + 1 < eventRingSegmentTrbs := by
    have inside := events.queue.room
    by_contra last
    have full := events.queue.full (by omega)
    rw [← events.writer] at full
    unfold State.eventRingFull at room
    rw [full, events.erdp] at room
    simp [State.eventReader] at room
  have bit : (stored s trb source).trb.cycle = (s.eventReader.ahead eventRingSegmentTrbs unread.length).cycle := by
    rw [← events.writer]
    exact cycle_withBit
  refine ⟨?_, ?_, events.erdp⟩
  · have pushed := events.queue.push few bit
    rw [← events.writer] at pushed
    exact pushed
  · rw [List.length_append]
    change s.eventWriter.next eventRingSegmentTrbs = _
    rw [events.writer]
    rfl

theorem eventReader_advance :
    (xhciAdvanceTransferEvent s).eventReader = s.eventReader.next eventRingSegmentTrbs := by
  have here : s.eventReader.index = s.nextTransferEvent := rfl
  unfold xhciAdvanceTransferEvent RingPlace.next
  rw [here]
  by_cases more : s.nextTransferEvent + 1 < eventRingSegmentTrbs
  · rw [if_pos more, if_pos more]
    rfl
  · rw [if_neg more, if_neg more]
    rfl

/-- So does the place in the transfer ring, and nothing else changes but a count. -/
theorem advanceRing_eq (s : State) : ∃ wraps, xhciAdvanceTransferRing s = { s with
      nextTrb := (s.producer.next (transferRingTrbs - 1)).index
      producerCycle := (s.producer.next (transferRingTrbs - 1)).cycle
      wraps := wraps } := by
  have here : s.producer.index = s.nextTrb := rfl
  unfold xhciAdvanceTransferRing RingPlace.next
  rw [here]
  by_cases more : s.nextTrb + 1 < transferRingTrbs - 1
  · rw [if_pos more, if_pos more]
    exact ⟨s.wraps, rfl⟩
  · rw [if_neg more, if_neg more]
    exact ⟨s.wraps + 1, rfl⟩

/-- What reading an event leaves alone. -/
structure SameCursor (s t : State) : Prop where
  eventRing : t.eventRing = s.eventRing
  eventWriter : t.eventWriter = s.eventWriter
  dequeue : t.dequeue = s.dequeue
  taken : t.taken = s.taken
  consumed : t.consumed = s.consumed
  endpoint : t.endpoint = s.endpoint

theorem advance_same (s : State) : SameCursor s (xhciAdvanceTransferEvent s) := by
  unfold xhciAdvanceTransferEvent
  split <;> exact ⟨rfl, rfl, rfl, rfl, rfl, rfl⟩

theorem Events.read (events : Events s (e :: unread)) : Events (xhciAdvanceTransferEvent s) unread := by
  have same := advance_same s
  refine ⟨?_, ?_, ?_⟩
  · rw [same.eventRing, eventReader_advance]
    exact events.queue.pop
  · rw [same.eventWriter, events.writer, eventReader_advance, RingPlace.ahead_next]
    rfl
  · unfold xhciAdvanceTransferEvent
    split <;> rfl

/-- What the controller leaves alone. -/
structure SameDriver (s t : State) : Prop where
  slotId : t.slotId = s.slotId
  ringPhys : t.ringPhys = s.ringPhys
  ring : t.ring = s.ring
  nextTrb : t.nextTrb = s.nextTrb
  producerCycle : t.producerCycle = s.producerCycle
  calls : t.calls = s.calls
  posts : t.posts = s.posts
  answers : t.answers = s.answers

theorem SameDriver.refl (s : State) : SameDriver s s := ⟨rfl, rfl, rfl, rfl, rfl, rfl, rfl, rfl⟩

theorem SameDriver.trans (first : SameDriver s t) (second : SameDriver t u) : SameDriver s u :=
  ⟨second.slotId.trans first.slotId, second.ringPhys.trans first.ringPhys, second.ring.trans first.ring,
    second.nextTrb.trans first.nextTrb, second.producerCycle.trans first.producerCycle,
    second.calls.trans first.calls, second.posts.trans first.posts, second.answers.trans first.answers⟩

theorem SameDriver.producer (same : SameDriver s t) : t.producer = s.producer := by
  unfold State.producer
  rw [same.nextTrb, same.producerCycle]

theorem SameDriver.followLink (same : SameDriver s t) : t.followLink p = s.followLink p := by
  unfold State.followLink
  rw [same.ring, same.ringPhys]

theorem take_same : SameDriver s s.take := by
  unfold State.take
  split
  · exact .refl s
  · split <;> exact ⟨rfl, rfl, rfl, rfl, rfl, rfl, rfl, rfl⟩

theorem act_same (a : ControllerAct) (s : State) : SameDriver s (s.act a) := by
  cases a with
  | take => exact take_same
  | report word2 =>
    simp only [State.act]
    split
    · exact .refl s
    · split <;> exact ⟨rfl, rfl, rfl, rfl, rfl, rfl, rfl, rfl⟩
  | other trb =>
    simp only [State.act]
    split <;> exact ⟨rfl, rfl, rfl, rfl, rfl, rfl, rfl, rfl⟩

theorem readEvent_same (s : State) : SameDriver s (xhciAdvanceTransferEvent s) := by
  unfold xhciAdvanceTransferEvent
  split <;> exact ⟨rfl, rfl, rfl, rfl, rfl, rfl, rfl, rfl⟩

theorem followLink_inside (inside : p.index < transferRingTrbs - 1) : s.followLink p = p := by
  exact if_neg fun link => absurd link.1 (by omega)

section

variable (inside : s.dequeue.index < transferRingTrbs - 1)

include inside

/-- The controller finds a TRB exactly where its cycle bit is set. -/
theorem finds_eq :
    s.finds = if (s.ring s.dequeue.index).trb.cycle = s.dequeue.cycle then some (s.ring s.dequeue.index).trb else none := by
  unfold State.finds
  rw [followLink_inside inside]
  simp [inside]

theorem take_nothing (inactive : (s.ring s.dequeue.index).trb.cycle ≠ s.dequeue.cycle) :
    s.take = s ∨ s.take = { s with rung := false } := by
  have nothing : s.finds = none := by rw [finds_eq inside, if_neg inactive]
  unfold State.take
  split
  · exact .inl rfl
  · simp [nothing, followLink_inside inside]

theorem take_live (live : (s.ring s.dequeue.index).trb.cycle = s.dequeue.cycle) :
    s.take = s ∨ s.take =
      { s with
        dequeue := s.followLink { s.dequeue with index := s.dequeue.index + 1 }
        taken := s.taken ++ [{ index := s.dequeue.index, post := (s.ring s.dequeue.index).post }]
        consumed := s.consumed ++ [(s.ring s.dequeue.index).trb] } := by
  have found : s.finds = some (s.ring s.dequeue.index).trb := by rw [finds_eq inside, if_pos live]
  unfold State.take
  split
  · exact .inl rfl
  · simp [found, followLink_inside inside]

end

theorem SameDriver.matches (same : SameDriver s t) : t.Matches trb ↔ s.Matches trb := by
  unfold State.Matches
  rw [same.slotId]

/-- An event about something else is posted, if there is room. -/
theorem act_other (events : Events t unread) :
    t.act (.other trb) = t ∨ (t.act (.other trb) = t.postEvent trb none ∧ ¬t.Matches trb ∧
      Events (t.postEvent trb none) (unread ++ [stored t trb none])) := by
  simp only [State.act]
  split
  · exact .inl rfl
  · rename_i posts
    obtain ⟨other, room⟩ := not_or.mp posts
    exact .inr ⟨rfl, other, events.post (Bool.not_eq_true _ ▸ room) trb none⟩

theorem stored_unrelated (same : SameDriver u t) (unrelated : Unrelated u unread)
    (other : ¬t.Matches trb) : Unrelated u (unread ++ [stored t trb source]) := by
  intro e member
  rcases List.mem_append.mp member with old | new
  · exact unrelated e old
  · rw [List.mem_singleton.mp new, ← same.matches]
    exact fun found => other (matches_withBit.mp found)

/-- The controller is where the driver will post, finds nothing there, and owes the driver no event. -/
structure InStep (s : State) : Prop where
  bounded : s.ringPhys < 2 ^ 64
  index : s.nextTrb < transferRingTrbs - 1
  dequeue : s.dequeue = s.producer
  inactive : (s.ring s.nextTrb).trb.cycle ≠ s.producerCycle
  taken : s.taken = []
  endpoint : s.endpoint < 32
  events : ∃ unread, Events s unread ∧ Unrelated s unread

theorem InStep.inside (inStep : InStep s) : s.dequeue.index < transferRingTrbs - 1 := by
  rw [inStep.dequeue]
  exact inStep.index

theorem InStep.still (inStep : InStep s) : (s.ring s.dequeue.index).trb.cycle ≠ s.dequeue.cycle := by
  rw [inStep.dequeue]
  exact inStep.inactive

theorem InStep.finds (inStep : InStep s) : s.finds = none := by
  rw [finds_eq inStep.inside, if_neg inStep.still]

theorem InStep.act (a : ControllerAct) (s : State) (inStep : InStep s) : InStep (s.act a) := by
  cases a with
  | take =>
    obtain same | same := take_nothing inStep.inside inStep.still
    · exact (same ▸ inStep :)
    · change InStep s.take
      rw [same]
      obtain ⟨unread, ⟨queue, writer, erdp⟩, unrelated⟩ := inStep.events
      exact ⟨inStep.bounded, inStep.index, inStep.dequeue, inStep.inactive, inStep.taken, inStep.endpoint, unread,
        ⟨queue, writer, erdp⟩, unrelated⟩
  | report word2 =>
    have same : s.act (.report word2) = s := by simp only [State.act, inStep.taken]
    rw [same]
    exact inStep
  | other trb =>
    obtain ⟨unread, events, unrelated⟩ := inStep.events
    obtain still | ⟨posted, other, more⟩ := act_other events
    · rw [still]
      exact inStep
    · have apart : Unrelated s (unread ++ [stored s trb none]) := stored_unrelated (.refl s) unrelated other
      rw [posted]
      exact ⟨inStep.bounded, inStep.index, inStep.dequeue, inStep.inactive, inStep.taken, inStep.endpoint, _, more, apart⟩

variable {nextTrb : Nat} {cycle : Bool} {buffer length : Nat}

/-- A store to another TRB, or to another word than the control word. -/
def Harmless (nextTrb : Nat) (f : State → State) : Prop :=
  ∃ i g, f = setTrb i g ∧ (i = nextTrb → ∀ t, (g t).control = t.control)

theorem prepareStores_harmless (ringPhys : Nat) (inside : nextTrb < transferRingTrbs - 1) (cycle : Bool)
    (buffer length : Nat) : ∀ f ∈ prepareStores ringPhys nextTrb cycle buffer length, Harmless nextTrb f := by
  have size : transferRingTrbs = 1024 := rfl
  have elsewhere : ∀ i g, i ≠ nextTrb → Harmless nextTrb (setTrb i g) :=
    fun i g other => ⟨i, g, rfl, fun same => absurd same other⟩
  intro f member
  rcases List.mem_append.mp member with successor | own
  · unfold successorStores xhciMarkTransferTrbInactive at successor
    split at successor
    · rw [if_neg (by omega)] at successor
      simp only [List.mem_cons, List.not_mem_nil, or_false] at successor
      rcases successor with rfl | rfl | rfl | rfl <;> exact elsewhere _ _ (by omega)
    · rw [if_neg (by omega)] at successor
      simp only [List.cons_append, List.nil_append, List.mem_cons, List.not_mem_nil, or_false] at successor
      rcases successor with rfl | rfl | rfl | rfl | rfl | rfl | rfl | rfl <;> exact elsewhere _ _ (by omega)
  · simp only [List.mem_cons, List.not_mem_nil, or_false] at own
    rcases own with rfl | rfl | rfl <;> exact ⟨_, _, rfl, fun _ _ => rfl⟩

/-- The driver's variables, and what the controller has taken so far. -/
structure SameVars (s t : State) : Prop where
  slotId : t.slotId = s.slotId
  ringPhys : t.ringPhys = s.ringPhys
  nextTrb : t.nextTrb = s.nextTrb
  producerCycle : t.producerCycle = s.producerCycle
  calls : t.calls = s.calls
  posts : t.posts = s.posts
  answers : t.answers = s.answers
  consumed : t.consumed = s.consumed

theorem InStep.act_consumed (inStep : InStep s) : (s.act a).consumed = s.consumed := by
  cases a with
  | take =>
    change s.take.consumed = s.consumed
    obtain same | same := take_nothing inStep.inside inStep.still <;> rw [same]
  | report word2 => simp only [State.act, inStep.taken]
  | other trb =>
    simp only [State.act]
    split <;> rfl

theorem SameVars.act (same : SameVars s t) (inStep : InStep t) : SameVars s (t.act a) := by
  have kept := act_same a t
  exact ⟨kept.slotId.trans same.slotId, kept.ringPhys.trans same.ringPhys, kept.nextTrb.trans same.nextTrb,
    kept.producerCycle.trans same.producerCycle, kept.calls.trans same.calls, kept.posts.trans same.posts,
    kept.answers.trans same.answers, inStep.act_consumed.trans same.consumed⟩

theorem InStep.harmless (harmless : Harmless s.nextTrb f) (inStep : InStep s) : InStep (f s) := by
  obtain ⟨i, g, rfl, keeps⟩ := harmless
  obtain ⟨unread, ⟨queue, writer, erdp⟩, unrelated⟩ := inStep.events
  refine ⟨inStep.bounded, inStep.index, inStep.dequeue, ?_, inStep.taken, inStep.endpoint, unread,
    ⟨queue, writer, erdp⟩, unrelated⟩
  change (Function.update s.ring i _ s.nextTrb).trb.cycle ≠ s.producerCycle
  by_cases same : i = s.nextTrb
  · subst same
    rw [Function.update_self, Trb.cycle, keeps rfl]
    exact inStep.inactive
  · rw [Function.update_of_ne (Ne.symm same)]
    exact inStep.inactive

/-- Until the TRB is handed over, driver and controller stay in step, and the stores are all that
    happens to the ring. -/
theorem InStep.prepared (inStep : InStep s) (schedule : Nat → List ControllerAct)
    (harmless : ∀ f ∈ fs, Harmless s.nextTrb f) :
    InStep (Shared.stores State.act fs ⟨s, schedule⟩).state ∧
      SameVars s (Shared.stores State.act fs ⟨s, schedule⟩).state ∧
      (Shared.stores State.act fs ⟨s, schedule⟩).state.ring = (fs.foldl (fun t f => f t) s).ring := by
  refine Shared.stores_related (R := fun t v => InStep t ∧ SameVars s t ∧ t.ring = v.ring) ?_ ?_
    (s := ⟨s, schedule⟩) ⟨inStep, ⟨rfl, rfl, rfl, rfl, rfl, rfl, rfl, rfl⟩, rfl⟩
  · rintro a t v ⟨holds, same, ring⟩
    exact ⟨InStep.act a t holds, same.act holds, (act_same a t).ring.trans ring⟩
  · rintro f member t v ⟨holds, same, ring⟩
    refine ⟨holds.harmless (same.nextTrb ▸ harmless f member), ?_⟩
    obtain ⟨i, g, rfl, -⟩ := harmless f member
    refine ⟨⟨same.slotId, same.ringPhys, same.nextTrb, same.producerCycle, same.calls, same.posts, same.answers,
      same.consumed⟩, ?_⟩
    simp only [setTrb, ring]

/-! ### The ring once the TRB is written -/

theorem cycle_trbCycle (t : Trb) : Trb.cycle { t with control := trbCycle cycle } = cycle := by
  cases cycle <;> rfl

theorem successorStores_inactive (more : nextTrb + 1 < transferRingTrbs - 1) :
    (((successorStores ringPhys nextTrb cycle).foldl (fun t f => f t) s).ring (nextTrb + 1)).trb.cycle = !cycle := by
  unfold successorStores xhciMarkTransferTrbInactive
  rw [if_pos more, if_neg (by omega)]
  simp only [List.foldl_cons, List.foldl_nil, setTrb, Function.update_self]
  exact cycle_trbCycle .zero

theorem successorStores_link (ringPhys : Nat) (last : ¬nextTrb + 1 < transferRingTrbs - 1) (cycle : Bool)
    (s : State) :
    let ring := ((successorStores ringPhys nextTrb cycle).foldl (fun t f => f t) s).ring
    (ring (transferRingTrbs - 1)).trb =
      { word0 := ringPhys % 2 ^ 32
        word1 := ringPhys / 2 ^ 32 % 2 ^ 32
        word2 := 0
        control := linkTrbType * typeShift + linkToggleCycle + trbCycle cycle } ∧ (ring 0).trb.cycle = cycle := by
  have apart : transferRingTrbs - 1 ≠ 0 := by decide
  unfold successorStores xhciMarkTransferTrbInactive
  rw [if_neg last, if_neg (by decide)]
  simp only [List.cons_append, List.nil_append, List.foldl_cons, List.foldl_nil, setTrb, Function.update_self,
    Function.update_of_ne apart]
  exact ⟨trivial, cycle_trbCycle .zero⟩

def postedTrb (cycle : Bool) (r : Request) : Trb where
  word0 := r.buffer % 2 ^ 32
  word1 := r.buffer / 2 ^ 32 % 2 ^ 32
  word2 := r.length % 2 ^ 32
  control := normalControl cycle

theorem postedTrb_cycle : (postedTrb cycle r).cycle = cycle := by
  have control : ∀ c, Trb.cycle { Trb.zero with control := normalControl c } = c := by decide
  exact control cycle

/-- The ring after all stores: the TRB itself, and everything else as its successor left it. -/
theorem prepareStores_ring :
    ((prepareStores ringPhys nextTrb cycle r.buffer r.length).foldl (fun t f => f t) s).ring
      = let before := ((successorStores ringPhys nextTrb cycle).foldl (fun t f => f t) s).ring
        Function.update before nextTrb
          { before nextTrb with trb := { postedTrb cycle r with control := (before nextTrb).trb.control } } := by
  unfold prepareStores
  rw [List.foldl_append]
  simp [setTrb, postedTrb]

/-- A TRB that has been handed over, with an inactive one behind it. -/
structure Handed (u : State) : Prop where
  index : u.nextTrb < transferRingTrbs - 1
  live : (u.ring u.nextTrb).trb.cycle = u.producerCycle
  link : u.followLink { u.producer with index := u.nextTrb + 1 } = u.producer.next (transferRingTrbs - 1)
  inactive : (u.ring (u.producer.next (transferRingTrbs - 1)).index).trb.cycle
    ≠ (u.producer.next (transferRingTrbs - 1)).cycle

theorem link_address (bounded : ringPhys < 2 ^ 64) {word2 control : Nat} :
    Trb.address { word0 := ringPhys % 2 ^ 32, word1 := ringPhys / 2 ^ 32 % 2 ^ 32, word2, control } = ringPhys := by
  simp only [Trb.address]
  omega

theorem link_follows (bounded : ringPhys < 2 ^ 64) (phys : u.ringPhys = ringPhys)
    (link : (u.ring (transferRingTrbs - 1)).trb =
      { word0 := ringPhys % 2 ^ 32
        word1 := ringPhys / 2 ^ 32 % 2 ^ 32
        word2 := 0
        control := linkTrbType * typeShift + linkToggleCycle + trbCycle cycle }) :
    u.followLink { index := transferRingTrbs - 1, cycle := cycle } = { index := 0, cycle := !cycle } := by
  have control : ∀ c : Bool,
      Trb.cycle { Trb.zero with control := linkTrbType * typeShift + linkToggleCycle + trbCycle c } = c ∧
      Trb.type { Trb.zero with control := linkTrbType * typeShift + linkToggleCycle + trbCycle c } = linkTrbType ∧
      (linkTrbType * typeShift + linkToggleCycle + trbCycle c) / 2 % 2 = 1 := by decide
  obtain ⟨bit, kind, toggles⟩ := control cycle
  unfold State.followLink
  simp only [link, link_address bounded, phys, toggles]
  exact if_pos ⟨trivial, bit, kind, trivial⟩

theorem handOver_handed (index : s.nextTrb < transferRingTrbs - 1) (bounded : s.ringPhys < 2 ^ 64)
    (same : SameVars s v)
    (ring : v.ring =
      ((prepareStores s.ringPhys s.nextTrb s.producerCycle r.buffer r.length).foldl (fun t f => f t) s).ring) :
    Handed (handOver s.nextTrb s.producerCycle v) ∧
      (handOver s.nextTrb s.producerCycle v).ring s.nextTrb
        = { trb := postedTrb s.producerCycle r, post := s.calls } := by
  have size : transferRingTrbs = 1024 := rfl
  rw [prepareStores_ring] at ring
  have mine : (handOver s.nextTrb s.producerCycle v).ring s.nextTrb
      = { trb := postedTrb s.producerCycle r, post := s.calls } := by
    change Function.update v.ring s.nextTrb _ s.nextTrb = _
    rw [Function.update_self, ring, Function.update_self, same.calls]
    rfl
  have others : ∀ i, i ≠ s.nextTrb → (handOver s.nextTrb s.producerCycle v).ring i
      = ((successorStores s.ringPhys s.nextTrb s.producerCycle).foldl (fun t f => f t) s).ring i := by
    intro i other
    change Function.update v.ring s.nextTrb _ i = _
    rw [Function.update_of_ne other, ring, Function.update_of_ne other]
  have producer : (handOver s.nextTrb s.producerCycle v).producer = s.producer := by
    change v.producer = s.producer
    unfold State.producer
    rw [same.nextTrb, same.producerCycle]
  have phys := same.ringPhys
  have next : (handOver s.nextTrb s.producerCycle v).nextTrb = s.nextTrb := same.nextTrb
  have cycle : (handOver s.nextTrb s.producerCycle v).producerCycle = s.producerCycle := same.producerCycle
  have here : s.producer.index = s.nextTrb := rfl
  refine ⟨⟨by rw [next]; exact index, ?_, ?_, ?_⟩, mine⟩
  · rw [next, mine, cycle]
    exact postedTrb_cycle
  · rw [producer, next]
    by_cases more : s.nextTrb + 1 < transferRingTrbs - 1
    · rw [followLink_inside more, RingPlace.next, here, if_pos more]
    · have last : s.nextTrb + 1 = transferRingTrbs - 1 := by omega
      rw [RingPlace.next, here, last]
      obtain ⟨link, -⟩ := successorStores_link s.ringPhys more s.producerCycle s
      rw [← others _ (by omega)] at link
      exact link_follows bounded phys link
  · rw [producer]
    by_cases more : s.nextTrb + 1 < transferRingTrbs - 1
    · rw [RingPlace.next, here, if_pos more, others _ (by simp only; omega)]
      rw [successorStores_inactive more]
      simp [State.producer]
    · rw [RingPlace.next, here, if_neg more, others _ (by simp only; omega)]
      rw [(successorStores_link s.ringPhys more s.producerCycle s).2]
      simp [State.producer]

end TangPingOS.Xhci
