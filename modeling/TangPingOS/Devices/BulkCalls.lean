import TangPingOS.Devices.BulkRing

/-! # Calls in step

As long as the controller is where the driver will post its next transfer request block, and
owes it no event, the next call gets the event for its own block. A call that succeeds leaves
it so, any number of times round the ring; one that fails does not.
-/

namespace TangPingOS.Xhci

open Lib

variable {c : Call} {s t u : State} {unread : List Event}

/-! ## Waiting -/

/-- What can have become of the TRB that was handed over in the state `u`. -/
inductive Progress (u t : State) : Prop
  | waiting (same : SameDriver u t) (endpoint : t.endpoint < 32) (dequeue : t.dequeue = u.producer)
      (consumed : t.consumed = u.consumed) (taken : t.taken = []) (unread : List Event) (events : Events t unread)
      (unrelated : Unrelated u unread)
  | taken (same : SameDriver u t) (endpoint : t.endpoint < 32)
      (dequeue : t.dequeue = u.producer.next (transferRingTrbs - 1))
      (consumed : t.consumed = u.consumed ++ [(u.ring u.nextTrb).trb])
      (taken : t.taken = [{ index := u.nextTrb, post := (u.ring u.nextTrb).post }]) (unread : List Event)
      (events : Events t unread) (unrelated : Unrelated u unread)
  | reported (same : SameDriver u t) (endpoint : t.endpoint < 32)
      (dequeue : t.dequeue = u.producer.next (transferRingTrbs - 1))
      (consumed : t.consumed = u.consumed ++ [(u.ring u.nextTrb).trb]) (taken : t.taken = []) (before : List Event)
      (event : Event) (after : List Event) (events : Events t (before ++ event :: after))
      (own : event.source = some (u.ring u.nextTrb).post) (awaited : u.Matches event.trb)
      (unrelated : Unrelated u before ∧ Unrelated u after)

/-- The event has been read. -/
structure Done (u t : State) : Prop where
  same : SameDriver u t
  endpoint : t.endpoint < 32
  dequeue : t.dequeue = u.producer.next (transferRingTrbs - 1)
  consumed : t.consumed = u.consumed ++ [(u.ring u.nextTrb).trb]
  taken : t.taken = []
  events : ∃ unread, Events t unread ∧ Unrelated u unread

theorem Handed.nextInside (handed : Handed u) (dequeue : t.dequeue = u.producer.next (transferRingTrbs - 1)) :
    t.dequeue.index < transferRingTrbs - 1 := by
  rw [dequeue]
  exact RingPlace.next_inside handed.index

theorem Handed.nextInactive (handed : Handed u) (same : SameDriver u t)
    (dequeue : t.dequeue = u.producer.next (transferRingTrbs - 1)) :
    (t.ring t.dequeue.index).trb.cycle ≠ t.dequeue.cycle := by
  rw [same.ring, dequeue]
  exact handed.inactive

theorem Progress.take (handed : Handed u) (progress : Progress u t) : Progress u t.take := by
  cases progress with
  | waiting same endpoint dequeue consumed taken unread events unrelated =>
    have inside : t.dequeue.index < transferRingTrbs - 1 := by
      rw [dequeue]
      exact handed.index
    have live : (t.ring t.dequeue.index).trb.cycle = t.dequeue.cycle := by
      rw [same.ring, dequeue]
      exact handed.live
    obtain still | moved := take_live inside live
    · rw [still]
      exact .waiting same endpoint dequeue consumed taken unread events unrelated
    · have kept := same.trans take_same
      rw [moved] at kept ⊢
      refine .taken kept endpoint ?_ ?_ ?_ unread ⟨events.queue, events.writer, events.erdp⟩ unrelated
      · simp only [dequeue]
        rw [same.followLink]
        exact handed.link
      · simp only [dequeue, same.ring, consumed]
        rfl
      · simp only [dequeue, same.ring, taken]
        rfl
  | taken same endpoint dequeue consumed taken unread events unrelated =>
    obtain still | idle := take_nothing (handed.nextInside dequeue) (handed.nextInactive same dequeue)
    · rw [still]
      exact .taken same endpoint dequeue consumed taken unread events unrelated
    · have kept := same.trans take_same
      rw [idle] at kept ⊢
      exact .taken kept endpoint dequeue consumed taken unread ⟨events.queue, events.writer, events.erdp⟩ unrelated
  | reported same endpoint dequeue consumed taken before event after events own awaited unrelated =>
    obtain still | idle := take_nothing (handed.nextInside dequeue) (handed.nextInactive same dequeue)
    · rw [still]
      exact .reported same endpoint dequeue consumed taken before event after events own awaited unrelated
    · have kept := same.trans take_same
      rw [idle] at kept ⊢
      exact .reported kept endpoint dequeue consumed taken before event after
        ⟨events.queue, events.writer, events.erdp⟩ own awaited unrelated

theorem Progress.report (progress : Progress u t) : Progress u (t.act (.report word2)) := by
  cases progress with
  | waiting same endpoint dequeue consumed taken unread events unrelated =>
    have still : t.act (.report word2) = t := by simp only [State.act, taken]
    rw [still]
    exact .waiting same endpoint dequeue consumed taken unread events unrelated
  | taken same endpoint dequeue consumed taken unread events unrelated =>
    have kept := same.trans (act_same (.report word2) t)
    simp only [State.act, taken] at kept ⊢
    split
    · exact .taken same endpoint dequeue consumed taken unread events unrelated
    · rename_i room
      rw [if_neg room] at kept
      have behind : Events { t with taken := [] } unread := ⟨events.queue, events.writer, events.erdp⟩
      have posted := behind.post (Bool.not_eq_true _ ▸ room) (t.transferEvent u.nextTrb word2)
        (some (u.ring u.nextTrb).post)
      refine .reported kept endpoint dequeue consumed rfl unread _ [] posted rfl ?_ ⟨unrelated, List.forall_mem_nil _⟩
      have awaited := same.matches.mp (transferEvent_matches endpoint u.nextTrb word2)
      exact matches_withBit.mpr awaited
  | reported same endpoint dequeue consumed taken before event after events own awaited unrelated =>
    have still : t.act (.report word2) = t := by simp only [State.act, taken]
    rw [still]
    exact .reported same endpoint dequeue consumed taken before event after events own awaited unrelated

theorem Progress.other (progress : Progress u t) : Progress u (t.act (.other trb)) := by
  have kept := act_same (.other trb) t
  cases progress with
  | waiting same endpoint dequeue consumed taken unread events unrelated =>
    obtain still | ⟨posted, other, more⟩ := act_other events
    · rw [still]
      exact .waiting same endpoint dequeue consumed taken unread events unrelated
    · rw [posted] at kept ⊢
      exact .waiting (same.trans kept) endpoint dequeue consumed taken _ more (stored_unrelated same unrelated other)
  | taken same endpoint dequeue consumed taken unread events unrelated =>
    obtain still | ⟨posted, other, more⟩ := act_other events
    · rw [still]
      exact .taken same endpoint dequeue consumed taken unread events unrelated
    · rw [posted] at kept ⊢
      exact .taken (same.trans kept) endpoint dequeue consumed taken _ more (stored_unrelated same unrelated other)
  | reported same endpoint dequeue consumed taken before event after events own awaited unrelated =>
    obtain still | ⟨posted, other, more⟩ := act_other events
    · rw [still]
      exact .reported same endpoint dequeue consumed taken before event after events own awaited unrelated
    · rw [posted] at kept ⊢
      rw [List.append_assoc] at more
      exact .reported (same.trans kept) endpoint dequeue consumed taken before event _ more own awaited
        ⟨unrelated.1, stored_unrelated same unrelated.2 other⟩

theorem Progress.act (handed : Handed u) (a : ControllerAct) (t : State) (progress : Progress u t) :
    Progress u (t.act a) := by
  cases a with
  | take => exact progress.take handed
  | report word2 => exact progress.report
  | other trb => exact progress.other

/-- Reading the first event: one about something else is passed over, the other one ends the wait. -/
theorem Progress.read (progress : Progress u t)
    (ready : (t.eventRing t.nextTransferEvent).trb.cycle = t.transferEventCycle) :
    (t.Matches (t.eventRing t.nextTransferEvent).trb ∧
      (t.eventRing t.nextTransferEvent).source = some (u.ring u.nextTrb).post ∧ Done u (xhciAdvanceTransferEvent t)) ∨
    (¬t.Matches (t.eventRing t.nextTransferEvent).trb ∧ Progress u (xhciAdvanceTransferEvent t)) := by
  have kept := readEvent_same t
  have cursor := advance_same t
  cases progress with
  | waiting same endpoint dequeue consumed taken unread events unrelated =>
    cases unread with
    | nil => exact absurd ready events.queue.nothing
    | cons e rest =>
      have front : t.eventRing t.nextTransferEvent = e := events.queue.front.1
      rw [front, same.matches]
      refine .inr ⟨unrelated e List.mem_cons_self, ?_⟩
      exact .waiting (same.trans kept) (cursor.endpoint ▸ endpoint) (cursor.dequeue.trans dequeue)
        (cursor.consumed.trans consumed) (cursor.taken.trans taken) rest events.read
        fun e member => unrelated e (List.mem_cons_of_mem _ member)
  | taken same endpoint dequeue consumed taken unread events unrelated =>
    cases unread with
    | nil => exact absurd ready events.queue.nothing
    | cons e rest =>
      have front : t.eventRing t.nextTransferEvent = e := events.queue.front.1
      rw [front, same.matches]
      refine .inr ⟨unrelated e List.mem_cons_self, ?_⟩
      exact .taken (same.trans kept) (cursor.endpoint ▸ endpoint) (cursor.dequeue.trans dequeue)
        (cursor.consumed.trans consumed) (cursor.taken.trans taken) rest events.read
        fun e member => unrelated e (List.mem_cons_of_mem _ member)
  | reported same endpoint dequeue consumed taken before event after events own awaited unrelated =>
    cases before with
    | nil =>
      have front : t.eventRing t.nextTransferEvent = event := events.queue.front.1
      rw [front, same.matches]
      refine .inl ⟨awaited, own, ?_⟩
      exact ⟨same.trans kept, cursor.endpoint ▸ endpoint, cursor.dequeue.trans dequeue,
        cursor.consumed.trans consumed, cursor.taken.trans taken, after, events.read, unrelated.2⟩
    | cons e rest =>
      have front : t.eventRing t.nextTransferEvent = e := events.queue.front.1
      rw [front, same.matches]
      refine .inr ⟨unrelated.1 e List.mem_cons_self, ?_⟩
      exact .reported (same.trans kept) (cursor.endpoint ▸ endpoint) (cursor.dequeue.trans dequeue)
        (cursor.consumed.trans consumed) (cursor.taken.trans taken) rest event after events.read own awaited
        ⟨fun e member => unrelated.1 e (List.mem_cons_of_mem _ member), unrelated.2⟩

/-- The wait ends with the call's own event, or without one. -/
theorem pollTransferEvent_spec (handed : Handed u) (progress : Progress u d.state) :
    (∃ d', pollTransferEvent left d = (none, d') ∧ Progress u d'.state) ∨
    ∃ e d', pollTransferEvent left d = (some e, d') ∧ e.source = some (u.ring u.nextTrb).post ∧ Done u d'.state := by
  induction left generalizing d with
  | zero => exact .inl ⟨d, rfl, progress⟩
  | succ left ih =>
    have stepped := Shared.step_keeps (Progress.act handed) progress
    unfold pollTransferEvent
    simp only
    split
    · exact ih stepped
    · rename_i ready
      obtain ⟨found, own, done⟩ | ⟨other, further⟩ := stepped.read (not_not.mp ready)
      · rw [if_pos found]
        exact .inr ⟨_, _, rfl, own, done⟩
      · rw [if_neg other]
        exact ih (d := { d.step State.act with state := xhciAdvanceTransferEvent (d.step State.act).state }) further

/-! ## A call -/

def Call.preparation (c : Call) (s : State) : List (State → State) :=
  prepareStores s.ringPhys s.nextTrb s.producerCycle c.request.buffer c.request.length

def Call.rung (c : Call) (s : State) : Driver :=
  Shared.stores State.act
    (c.preparation s ++ [handOver s.nextTrb s.producerCycle, ringDoorbell c.request.endpoint]) ⟨s, c.schedule⟩

def afterWait (call : Nat) : Option Event × Driver → Bool × State
  | (none, d) => (false, d.state)
  | (some event, d) =>
    if event.trb.completionCode ≠ completionSuccess then (false, d.state)
    else
      (true, { xhciAdvanceTransferRing d.state with
        answers := (xhciAdvanceTransferRing d.state).answers ++ [{ call := call, source := event.source }] })

theorem Call.run_eq (accepted : ¬c.request.Refused s) :
    c.run s = afterWait s.calls (xhciWaitNextTransferEvent (c.rung s)) := by
  have isRung : Shared.stores State.act (prepareStores s.ringPhys s.nextTrb s.producerCycle
      c.request.buffer c.request.length ++ [handOver s.nextTrb s.producerCycle, ringDoorbell c.request.endpoint])
      ⟨s, c.schedule⟩ = c.rung s := rfl
  unfold Call.run xhciBulkTransferDynamic
  simp only [if_neg accepted, isRung]
  cases xhciWaitNextTransferEvent (c.rung s) with
  | mk result d =>
    cases result with
    | none => rfl
    | some event =>
      simp only [afterWait]
      split <;> rfl

/-- The state in which the call has handed its TRB over. -/
structure Posted (s : State) (r : Request) (u : State) : Prop where
  handed : Handed u
  bounded : u.ringPhys < 2 ^ 64
  producer : u.producer = s.producer
  mine : u.ring u.nextTrb = { trb := postedTrb s.producerCycle r, post := s.calls }
  consumed : u.consumed = s.consumed
  posts : u.posts = s.posts ++ [{ nextTrb := s.nextTrb, dequeue := s.nextTrb }]
  answers : u.answers = s.answers

theorem handOver_posted (inStep : InStep s) (ready : InStep v) (same : SameVars s v) (ring : v.ring =
      ((prepareStores s.ringPhys s.nextTrb s.producerCycle r.buffer r.length).foldl (fun t f => f t) s).ring) :
    Posted s r (handOver s.nextTrb s.producerCycle v) ∧
      Progress (handOver s.nextTrb s.producerCycle v) (handOver s.nextTrb s.producerCycle v) := by
  obtain ⟨handed, mine⟩ := handOver_handed inStep.index inStep.bounded same ring
  have place : v.producer = s.producer := by
    unfold State.producer
    rw [same.nextTrb, same.producerCycle]
  have here : v.dequeue.index = s.nextTrb := by
    rw [ready.dequeue, place]
    rfl
  constructor
  · refine ⟨handed, ready.bounded, place, ?_, same.consumed, ?_, same.answers⟩
    · have next : (handOver s.nextTrb s.producerCycle v).nextTrb = s.nextTrb := same.nextTrb
      rw [next]
      exact mine
    · change v.posts ++ _ = _
      rw [same.posts, here]
  · obtain ⟨unread, ⟨queue, writer, erdp⟩, unrelated⟩ := ready.events
    exact .waiting (.refl _) ready.endpoint ready.dequeue rfl ready.taken unread ⟨queue, writer, erdp⟩ unrelated

theorem Progress.doorbell (progress : Progress u t) (bounded : endpoint < 32) :
    Progress u (ringDoorbell endpoint t) := by
  have kept : SameDriver t (ringDoorbell endpoint t) := ⟨rfl, rfl, rfl, rfl, rfl, rfl, rfl, rfl⟩
  cases progress with
  | waiting same _ dequeue consumed taken unread events unrelated =>
    exact .waiting (same.trans kept) bounded dequeue consumed taken unread
      ⟨events.queue, events.writer, events.erdp⟩ unrelated
  | taken same _ dequeue consumed taken unread events unrelated =>
    exact .taken (same.trans kept) bounded dequeue consumed taken unread
      ⟨events.queue, events.writer, events.erdp⟩ unrelated
  | reported same _ dequeue consumed taken before event after events own awaited unrelated =>
    exact .reported (same.trans kept) bounded dequeue consumed taken before event after
      ⟨events.queue, events.writer, events.erdp⟩ own awaited unrelated

theorem Request.endpoint_lt {r : Request} (accepted : ¬r.Refused s) : r.endpoint < 32 := by
  unfold Request.Refused at accepted
  omega

theorem wait_spec (handed : Handed u) (progress : Progress u d.state) :
    (∃ d', xhciWaitNextTransferEvent d = (none, d') ∧ Progress u d'.state) ∨
    ∃ e d', xhciWaitNextTransferEvent d = (some e, d') ∧ e.source = some (u.ring u.nextTrb).post ∧
      Done u d'.state := by
  unfold xhciWaitNextTransferEvent
  split
  · exact .inl ⟨d, rfl, progress⟩
  · exact pollTransferEvent_spec handed progress

/-- A call that starts in step hands its TRB over, and ends with its own event or without one. -/
theorem InStep.call (inStep : InStep s) (accepted : ¬c.request.Refused s) :
    ∃ u, Posted s c.request u ∧
      (((c.run s).1 = false ∧ (Progress u (c.run s).2 ∨ Done u (c.run s).2)) ∨
        ((c.run s).1 ∧ ∃ t, Done u t ∧ (c.run s).2 =
          { xhciAdvanceTransferRing t with
            answers := (xhciAdvanceTransferRing t).answers ++ [{ call := s.calls, source := some s.calls }] })) := by
  have harmless := prepareStores_harmless s.ringPhys inStep.index s.producerCycle c.request.buffer c.request.length
  obtain ⟨ready, same, ring⟩ := inStep.prepared c.schedule harmless
  -- the controller may act before the store that hands the TRB over, and before the doorbell
  obtain ⟨d, isPrepared⟩ : ∃ d, Shared.stores State.act (prepareStores s.ringPhys s.nextTrb s.producerCycle
      c.request.buffer c.request.length) ⟨s, c.schedule⟩ = d := ⟨_, rfl⟩
  rw [isPrepared] at ready same ring
  obtain ⟨ready, same, ring⟩ : InStep (d.step State.act).state ∧ SameVars s (d.step State.act).state ∧
      (d.step State.act).state.ring = _ := by
    refine Shared.step_keeps (P := fun t => InStep t ∧ SameVars s t ∧ t.ring = _) ?_ ⟨ready, same, ring⟩
    rintro a t ⟨holds, vars, cells⟩
    exact ⟨InStep.act a t holds, vars.act holds, (act_same a t).ring.trans cells⟩
  obtain ⟨posted, progress⟩ := handOver_posted inStep ready same ring
  refine ⟨handOver s.nextTrb s.producerCycle (d.step State.act).state, posted, ?_⟩
  generalize isHanded : handOver s.nextTrb s.producerCycle (d.step State.act).state = u at posted progress ⊢
  have rung : Progress u (c.rung s).state := by
    unfold Call.rung Call.preparation
    rw [Shared.stores_append, isPrepared, Shared.stores, isHanded]
    have stepped := Shared.step_keeps (s := ⟨u, (d.step State.act).schedule⟩) (Progress.act posted.handed) progress
    exact stepped.doorbell (Request.endpoint_lt accepted)
  obtain ⟨d', waited, progress'⟩ | ⟨event, d', waited, own, done⟩ := wait_spec posted.handed rung
  · rw [Call.run_eq accepted, waited]
    exact .inl ⟨rfl, .inl progress'⟩
  · rw [Call.run_eq accepted, waited]
    simp only [afterWait]
    split
    · exact .inl ⟨rfl, .inr done⟩
    · refine .inr ⟨rfl, d'.state, done, ?_⟩
      rw [own, posted.mine]

theorem Call.run_refused (refused : c.request.Refused s) : c.run s = (false, s) := by
  unfold Call.run xhciBulkTransferDynamic
  simp only [if_pos refused]

/-- What a call adds to the record. -/
structure Recorded (s : State) (c : Call) : Prop where
  posts : (c.run s).2.posts = s.posts ++ [{ nextTrb := s.nextTrb, dequeue := s.nextTrb }]
  answers : (c.run s).2.answers
    = s.answers ++ if (c.run s).1 then [{ call := s.calls, source := some s.calls }] else []

theorem Progress.same (progress : Progress u t) : SameDriver u t := by
  cases progress <;> assumption

theorem InStep.recorded (inStep : InStep s) (accepted : ¬c.request.Refused s) : Recorded s c := by
  obtain ⟨u, posted, ⟨failure, ended⟩ | ⟨success, t, done, result⟩⟩ := inStep.call accepted
  · have same := ended.elim Progress.same Done.same
    refine ⟨same.posts.trans posted.posts, ?_⟩
    rw [failure, same.answers, posted.answers]
    simp
  · obtain ⟨wraps, advanced⟩ := advanceRing_eq t
    rw [advanced] at result
    constructor
    · rw [result]
      exact done.same.posts.trans posted.posts
    · rw [success, result, if_pos rfl]
      exact congrArg (· ++ _) (done.same.answers.trans posted.answers)

/-- After a success the two are in step again, and the controller has taken exactly the call's TRB. -/
theorem InStep.succeeded (inStep : InStep s) (success : (c.run s).1) :
    InStep (c.run s).2 ∧ (c.run s).2.consumed = s.consumed ++ [postedTrb s.producerCycle c.request] := by
  have accepted : ¬c.request.Refused s := by
    intro refused
    rw [Call.run_refused refused] at success
    cases success
  obtain ⟨u, posted, ⟨failure, -⟩ | ⟨-, t, done, result⟩⟩ := inStep.call accepted
  · rw [failure] at success
    cases success
  · obtain ⟨unread, ⟨queue, writer, erdp⟩, unrelated⟩ := done.events
    obtain ⟨wraps, advanced⟩ := advanceRing_eq t
    have place := done.same.producer
    rw [advanced, place] at result
    rw [result]
    constructor
    · refine ⟨?_, RingPlace.next_inside posted.handed.index, done.dequeue, ?_, done.taken, done.endpoint, unread,
        ⟨queue, writer, erdp⟩, ?_⟩
      · exact done.same.ringPhys ▸ posted.bounded
      · rw [done.same.ring]
        exact posted.handed.inactive
      · intro e member found
        exact unrelated e member (done.same.matches.mp found)
    · rw [done.consumed, posted.mine, posted.consumed]

theorem InStep.failed (inStep : InStep s) (accepted : ¬c.request.Refused s)
    (failure : (c.run s).1 = false) : ¬InStep (c.run s).2 := by
  obtain ⟨u, posted, ⟨-, ended⟩ | ⟨success, -⟩⟩ := inStep.call accepted
  · intro again
    obtain progress | done := ended
    · cases progress with
      | waiting same endpoint dequeue consumed taken unread events unrelated =>
        -- the TRB is there for the controller to take
        have inactive := again.inactive
        rw [same.ring, same.nextTrb, same.producerCycle] at inactive
        exact inactive posted.handed.live
      | taken same endpoint dequeue consumed taken unread events unrelated =>
        rw [again.taken] at taken
        cases taken
      | reported same endpoint dequeue consumed taken before event after events own awaited unrelated =>
        rw [again.dequeue, same.producer] at dequeue
        exact RingPlace.next_ne (by decide) dequeue.symm
    · have dequeue := done.dequeue
      rw [again.dequeue, done.same.producer] at dequeue
      exact RingPlace.next_ne (by decide) dequeue.symm
  · rw [failure] at success
    cases success

/-! ## Runs -/

theorem getD_cycle {events : List Trb} (written : ∀ t ∈ events, t.cycle) :
    (events.getD i .zero).cycle = decide (i < events.length) := by
  by_cases inside : i < events.length
  · rw [List.getD_eq_getElem _ _ inside, written _ (List.getElem_mem inside), decide_eq_true inside]
  · rw [List.getD_eq_default _ _ (Nat.le_of_not_lt inside), decide_eq_false inside]
    rfl

theorem Setup.inStep (u : Setup) : InStep u.state := by
  have size : transferRingTrbs = 1024 := rfl
  have few : u.used.length < transferRingTrbs - 1 := by
    obtain three | six := u.usedLength <;> omega
  have inside : u.state.eventReader.index < eventRingSegmentTrbs := show 17 < eventRingSegmentTrbs by decide
  have endpoint : u.state.endpoint < 32 := show 0 < 32 by decide
  refine ⟨u.bounded.2, few, rfl, ?_, rfl, endpoint, [], ⟨⟨inside, by decide, nofun, ?_⟩, rfl, rfl⟩, nofun⟩
  · have other : u.used.length ≠ transferRingTrbs - 1 := by omega
    simp only [Setup.state, if_neg other]
    rw [List.getD_eq_default _ _ (Nat.le_refl _)]
    decide
  · intro i _ within
    have place := RingPlace.ahead_eq inside (i := i) (by omega)
    have index : u.state.eventReader.index = 17 := rfl
    have cycle : u.state.eventReader.cycle := rfl
    rw [index, cycle] at place
    rw [place]
    simp only [Setup.state, getD_cycle u.eventsWritten, u.eventsLength]
    split
    · simp only [ne_eq, decide_eq_true_eq]
      omega
    · simp only [ne_eq, Bool.not_true, decide_eq_false_iff_not]
      omega

theorem Agrees.call (agrees : Agrees s) (inStep : InStep s) (c : Call) : Agrees (c.run s).2 := by
  by_cases refused : c.request.Refused s
  · rw [Call.run_refused refused]
    exact agrees
  · have recorded := inStep.recorded refused
    constructor
    · intro p member
      rw [recorded.posts, List.mem_append, List.mem_singleton] at member
      obtain old | rfl := member
      · exact agrees.posts p old
      · rfl
    · intro a member
      rw [recorded.answers, List.mem_append] at member
      obtain old | new := member
      · exact agrees.answers a old
      · split at new
        · rw [List.mem_singleton.mp new]
        · cases new

theorem Agrees.act (agrees : Agrees s) (a : ControllerAct) : Agrees (s.act a) := by
  have same := act_same a s
  exact ⟨same.posts ▸ agrees.posts, same.answers ▸ agrees.answers⟩

/-- Every call that was accepted, and so has posted a TRB, has succeeded. -/
def AllSucceeded (s : State) : Prop := s.answers.length = s.posts.length

theorem AllSucceeded.iff (inStep : InStep s) (accepted : ¬c.request.Refused s) (all : AllSucceeded s) :
    AllSucceeded (c.run s).2 ↔ (c.run s).1 := by
  have recorded := inStep.recorded accepted
  unfold AllSucceeded at *
  rw [recorded.posts, recorded.answers]
  cases (c.run s).1 <;> simp [all]

/-- In a run whose calls are all made after successes only, the two are in step before each of them. -/
theorem BulkRun.agrees {u : Setup} (run : BulkRun (fun s _ => AllSucceeded s) u.state s) :
    Agrees s ∧ (AllSucceeded s → InStep s) := by
  induction run with
  | start => exact ⟨⟨nofun, nofun⟩, fun _ => u.inStep⟩
  | @controller s _ a ih =>
    refine ⟨ih.1.act a, fun all => (ih.2 ?_).act a⟩
    have same := act_same a s
    unfold AllSucceeded at all
    rwa [same.posts, same.answers] at all
  | @call s _ c all ih =>
    have inStep := ih.2 all
    refine ⟨ih.1.call inStep c, fun again => ?_⟩
    by_cases refused : c.request.Refused s
    · rw [Call.run_refused refused]
      exact inStep
    · exact (inStep.succeeded ((all.iff inStep refused).mp again)).1

/-- Calls before which every accepted call has succeeded post where the controller is, and succeed by their
    own event; and afterwards the two are in step exactly if the call has succeeded. -/
theorem bulk_calls_agree {u : Setup} (run : BulkRun (fun s _ => AllSucceeded s) u.state s) :
    Agrees s ∧ ∀ c : Call, AllSucceeded s → ¬c.request.Refused s → (InStep (c.run s).2 ↔ (c.run s).1 = true) := by
  refine ⟨run.agrees.1, fun c all accepted => ?_⟩
  have inStep := run.agrees.2 all
  constructor
  · intro again
    by_contra failure
    exact inStep.failed accepted (Bool.not_eq_true _ ▸ failure) again
  · exact fun success => (inStep.succeeded success).1

/-! ## Round the ring -/

theorem BulkRun.inStep {u : Setup} (run : BulkRun (fun s c => (c.run s).1) u.state s) : InStep s := by
  induction run with
  | start => exact u.inStep
  | controller _ a ih => exact ih.act a
  | call _ _ success ih => exact (ih.succeeded success).1

theorem postedTrb_words (bounded : r.buffer < 2 ^ 64) (short : r.length ≤ 4096) :
    (postedTrb cycle r).address = r.buffer ∧ (postedTrb cycle r).word2 = r.length := by
  constructor
  · exact link_address bounded
  · exact Nat.mod_eq_of_lt (by omega)

/-- After any number of successful calls the controller is where the driver is and finds nothing, and
    it finds nothing until the next call hands its TRB over. If that call succeeds, the controller
    has taken its TRB and no other. -/
theorem bulk_ring_exact {u : Setup} (run : BulkRun (fun s c => (c.run s).1 = true) u.state s) :
    (s.finds = none ∧ s.dequeue = s.producer) ∧
    ∀ c : Call, c.request.buffer < 2 ^ 64 → (c.run s).1 = true →
      (∀ k, (Shared.stores State.act ((c.preparation s).take k) ⟨s, c.schedule⟩).state.finds = none) ∧
      (∃ trb, (c.run s).2.consumed = s.consumed ++ [trb] ∧
        trb.address = c.request.buffer ∧ trb.word2 = c.request.length) ∧
      (c.run s).2.finds = none ∧ (c.run s).2.dequeue = (c.run s).2.producer := by
  have inStep := run.inStep
  refine ⟨⟨inStep.finds, inStep.dequeue⟩, ?_⟩
  intro c bounded success
  obtain ⟨again, consumed⟩ := inStep.succeeded success
  refine ⟨?_, ⟨_, consumed, ?_⟩, again.finds, again.dequeue⟩
  · intro k
    have harmless := prepareStores_harmless s.ringPhys inStep.index s.producerCycle c.request.buffer c.request.length
    exact (inStep.prepared c.schedule fun f member => harmless f (List.mem_of_mem_take member)).1.finds
  · have short : c.request.length ≤ 4096 := by
      by_contra long
      have refused : c.request.Refused s := by
        unfold Request.Refused
        omega
      rw [Call.run_refused refused] at success
      cases success
    exact postedTrb_words bounded short

def smallSetup : Setup where
  regs := 1
  doorbellOffset := 1
  runtimeOffset := 1
  slotId := 1
  ringPhys := 0x8000
  eventRingPhys := 0x4000
  present := by decide
  bounded := by decide
  used := List.replicate 3 .zero
  usedLength := .inl rfl
  events := List.replicate 17 { Trb.zero with control := 1 }
  eventsLength := rfl
  eventsWritten := by decide

/-- The controller acts once, so many accesses after the start of the call. -/
def sectorCall (at_ : Nat) (acts : List ControllerAct) : Call where
  request := { endpoint := 3, buffer := 0x10000, length := 512 }
  schedule := fun n => if n = at_ then acts else []

/-- It answers at once. The nine stores of the call and the doorbell come first. -/
def promptCall (code : Nat) : Call := sectorCall 9 [.take, .report (code * 2 ^ 24)]

/-- After one such call. -/
def calledOnce : State := ((promptCall completionSuccess).run smallSetup.state).2

/-- A second one succeeds, too. -/
theorem bulk_ring_exact_second :
    ((promptCall completionSuccess).run calledOnce).1 = true ∧
      ∃ trb, ((promptCall completionSuccess).run calledOnce).2.consumed = calledOnce.consumed ++ [trb] ∧
        trb.address = 0x10000 ∧ trb.word2 = 512 := by
  have first : ((promptCall completionSuccess).run smallSetup.state).1 := by decide +kernel
  have second : ((promptCall completionSuccess).run calledOnce).1 := by decide +kernel
  have run : BulkRun (fun s c => (c.run s).1) smallSetup.state calledOnce := .call .start _ first
  have exactly := (bulk_ring_exact run).2 (promptCall completionSuccess) (by decide) second
  exact ⟨second, exactly.2.1⟩

/-! ## Out of step -/

theorem bulk_calls_agree_first :
    Agrees calledOnce ∧ InStep calledOnce := by
  have empty : BulkRun (fun s _ => AllSucceeded s) smallSetup.state smallSetup.state := .start
  have run := BulkRun.call empty (promptCall completionSuccess) rfl
  have success : ((promptCall completionSuccess).run smallSetup.state).1 := by decide +kernel
  have accepted : ¬(promptCall completionSuccess).request.Refused smallSetup.state := by decide +kernel
  exact ⟨(bulk_calls_agree run).1,
    ((bulk_calls_agree empty).2 (promptCall completionSuccess) rfl accepted).mpr success⟩

theorem pollTransferEvent_same (d : Driver) : SameDriver d.state (pollTransferEvent left d).2.state := by
  induction left generalizing d with
  | zero => exact .refl _
  | succ left ih =>
    have stepped := Shared.step_keeps (P := SameDriver d.state) (fun a t same => same.trans (act_same a t)) (.refl _)
    have advanced := stepped.trans (readEvent_same _)
    unfold pollTransferEvent
    simp only
    split
    · exact stepped.trans (ih _)
    · split
      · exact advanced
      · exact advanced.trans (ih ⟨_, _⟩)

theorem Call.run_posts (accepted : ¬c.request.Refused s) :
    (c.run s).2.posts = (c.rung s).state.posts := by
  have waited : SameDriver (c.rung s).state (xhciWaitNextTransferEvent (c.rung s)).2.state := by
    unfold xhciWaitNextTransferEvent
    split
    · exact .refl _
    · exact pollTransferEvent_same _
  rw [Call.run_eq accepted, ← waited.posts]
  cases xhciWaitNextTransferEvent (c.rung s) with
  | mk result d =>
    cases result with
    | none => rfl
    | some event =>
      obtain ⟨wraps, advanced⟩ := advanceRing_eq d.state
      simp only [afterWait, advanced]
      split <;> rfl

theorem pollTransferEvent_idle (idle : ∀ n < left, d.schedule n = [])
    (nothing : (d.state.eventRing d.state.nextTransferEvent).trb.cycle ≠ d.state.transferEventCycle) :
    (pollTransferEvent left d).1 = none ∧ (pollTransferEvent left d).2.state = d.state := by
  induction left generalizing d with
  | zero => exact ⟨rfl, rfl⟩
  | succ left ih =>
    unfold pollTransferEvent
    rw [Shared.step_idle (idle 0 (Nat.zero_lt_succ _))]
    simp only [if_pos nothing]
    exact ih (d := ⟨d.state, fun n => d.schedule (n + 1)⟩) (fun n early => idle (n + 1) (Nat.succ_lt_succ early)) nothing

def lateCall : Call := sectorCall 0 []

theorem lateCall_run (accepted : ¬lateCall.request.Refused s)
    (nothing : ((lateCall.rung s).state.eventRing (lateCall.rung s).state.nextTransferEvent).trb.cycle
      ≠ (lateCall.rung s).state.transferEventCycle) : (lateCall.run s).2 = (lateCall.rung s).state := by
  have idle : ∀ n < pollLimit, (lateCall.rung s).schedule n = [] := by
    intro n _
    rw [Call.rung, Shared.stores_schedule]
    exact ite_self _
  obtain ⟨result, state⟩ := pollTransferEvent_idle idle nothing
  rw [Call.run_eq accepted]
  unfold xhciWaitNextTransferEvent
  split
  · rfl
  · cases ended : pollTransferEvent pollLimit (lateCall.rung s) with
    | mk event d =>
      rw [ended] at result state
      cases result
      exact state

/-- After a call that was answered with Short Packet, the next one posts behind the controller. -/
theorem short_packet_posts :
    ((promptCall completionSuccess).run ((promptCall 13).run smallSetup.state).2).2.posts
      = [{ nextTrb := 3, dequeue := 3 }, { nextTrb := 3, dequeue := 4 }] := by
  have accepted : ¬(promptCall completionSuccess).request.Refused ((promptCall 13).run smallSetup.state).2 := by
    decide +kernel
  rw [Call.run_posts accepted]
  decide +kernel

/-- After a call that got no answer in time, the controller takes its TRB. -/
def takenLate : State := (lateCall.run smallSetup.state).2.act .take

theorem takenLate_eq : takenLate = (lateCall.rung smallSetup.state).state.act .take := by
  unfold takenLate
  rw [lateCall_run (by decide +kernel) (by decide +kernel)]

/-- The event comes in time for the next call, which takes it for its own. -/
theorem late_event_answers :
    ((sectorCall 9 [.report (completionSuccess * 2 ^ 24)]).run takenLate).2.answers =
    [{ call := 1, source := some 0 }] := by
  rw [takenLate_eq]
  decide +kernel

theorem bulk_calls_drift :
    (∃ s, BulkRun (fun _ _ => True) smallSetup.state s ∧ ∃ p ∈ s.posts, p.dequeue ≠ p.nextTrb) ∧
    ∃ s, BulkRun (fun _ _ => True) smallSetup.state s ∧ ∃ a ∈ s.answers, a.source ≠ some a.call := by
  have empty : BulkRun (fun _ _ => True) smallSetup.state smallSetup.state := .start
  constructor
  · refine ⟨_, (empty.call (promptCall 13) trivial).call (promptCall completionSuccess) trivial, ?_⟩
    rw [short_packet_posts]
    decide
  · refine ⟨_, ((empty.call lateCall trivial).controller .take).call
      (sectorCall 9 [.report (completionSuccess * 2 ^ 24)]) trivial, ?_⟩
    have answers := late_event_answers
    unfold takenLate at answers
    rw [answers]
    decide

end TangPingOS.Xhci
