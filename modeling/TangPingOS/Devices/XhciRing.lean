import TangPingOS.Lib.CycleRing
import TangPingOS.Lib.Shared

/-! # The bulk transfer rings of the xHCI driver

The part of `kernel/pci.c` that moves data over a bulk endpoint, together with the host
controller. The driver writes one transfer request block (TRB) at a time to the endpoint's
ring, rings the doorbell and waits for the event. The controller takes TRBs off the ring
while it finds its cycle bit in them, follows the link at the end of the ring, and reports
each of them by one event, with any completion code and as late as it likes; other events
come in between. It may act between any two accesses of the driver, except that an event is
read as a whole. The names of the rings, which are only logged, are left out, as are the
outputs for the words of the event, of which the callers keep only the completion code.
-/

namespace TangPingOS.Xhci

open Lib

def transferRingTrbs : Nat := 4 * 4096 / 16
def eventRingSegmentTrbs : Nat := 4 * 4096 / 16
def pollLimit : Nat := 1000000

def normalTrbType : Nat := 1
def linkTrbType : Nat := 6
def transferEventType : Nat := 32
def completionSuccess : Nat := 1

/-- The type field, `XHCI_TRB_TYPE_SHIFT`. -/
def typeShift : Nat := 2 ^ 10
/-- `XHCI_TRB_IOC`. -/
def trbIoc : Nat := 2 ^ 5
/-- `XHCI_LINK_TRB_TOGGLE_CYCLE`. -/
def linkToggleCycle : Nat := 2 ^ 1
/-- `XHCI_TRB_CYCLE`, if it is set. -/
def trbCycle (cycle : Bool) : Nat := cycle.toNat

/-- The four words of a TRB. -/
structure Trb where
  word0 : Nat
  word1 : Nat
  word2 : Nat
  control : Nat
  deriving DecidableEq, Repr

namespace Trb

def zero : Trb := { word0 := 0, word1 := 0, word2 := 0, control := 0 }

def cycle (t : Trb) : Bool := t.control % 2 == 1

def type (t : Trb) : Nat := t.control / typeShift % 64

def address (t : Trb) : Nat := t.word0 + 2 ^ 32 * t.word1

def slotId (t : Trb) : Nat := t.control / 2 ^ 24

def completionCode (t : Trb) : Nat := t.word2 / 2 ^ 24

end Trb

/-- A cell of a transfer ring, and the number of the call that posted its TRB. -/
structure Cell where
  trb : Trb
  post : Nat

/-- A cell of the event ring, and the number of the call whose TRB it reports, if any. -/
structure Event where
  trb : Trb
  source : Option Nat

/-- A TRB that the controller has taken. -/
structure Taken where
  index : Nat
  post : Nat

/-- A TRB posted at one index while the controller is at another. -/
structure Post where
  nextTrb : Nat
  dequeue : Nat
  deriving DecidableEq

/-- A call with the result 0, and the call whose TRB the event was about. -/
structure Answer where
  call : Nat
  source : Option Nat
  deriving DecidableEq

/-- The driver's variables for one endpoint, the memory it shares with the controller, and the
    controller. The last three fields only record what happened. -/
structure State where
  regs : Nat
  doorbellOffset : Nat
  runtimeOffset : Nat
  slotId : Nat
  ringPhys : Nat
  eventRingPhys : Nat
  -- the transfer ring
  ring : Nat → Cell
  nextTrb : Nat
  producerCycle : Bool
  wraps : Nat
  -- the event ring, and the index in the register `ERDP`
  eventRing : Nat → Event
  nextTransferEvent : Nat
  transferEventCycle : Bool
  transferEventWraps : Nat
  erdp : Nat
  -- the controller: the doorbell, its place in either ring, and what it is still to report
  rung : Bool
  endpoint : Nat
  dequeue : RingPlace
  taken : List Taken
  eventWriter : RingPlace
  -- the calls so far
  calls : Nat
  consumed : List Trb
  posts : List Post
  answers : List Answer

namespace State

section

variable (s : State)

def producer : RingPlace := { index := s.nextTrb, cycle := s.producerCycle }

def eventReader : RingPlace := { index := s.nextTransferEvent, cycle := s.transferEventCycle }

/-! ## The controller -/

def followLink (p : RingPlace) : RingPlace :=
  let link := (s.ring p.index).trb
  if p.index = transferRingTrbs - 1 ∧ link.cycle = p.cycle ∧ link.type = linkTrbType ∧ link.address = s.ringPhys then
    { index := 0, cycle := if link.control / 2 % 2 = 1 then !p.cycle else p.cycle }
  else p

def finds : Option Trb :=
  let p := s.followLink s.dequeue
  if p.index < transferRingTrbs - 1 ∧ (s.ring p.index).trb.cycle = p.cycle then some (s.ring p.index).trb else none

def take : State :=
  if !s.rung then s
  else
    let p := s.followLink s.dequeue
    match s.finds with
    | none => { s with dequeue := p, rung := false }
    | some trb =>
      { s with
        dequeue := s.followLink { p with index := p.index + 1 }
        taken := s.taken ++ [{ index := p.index, post := (s.ring p.index).post }]
        consumed := s.consumed ++ [trb] }

def eventRingFull : Bool := (s.eventWriter.next eventRingSegmentTrbs).index == s.erdp

end

def postEvent (trb : Trb) (source : Option Nat) (s : State) : State :=
  { s with
    eventRing := Function.update s.eventRing s.eventWriter.index
      { trb := { trb with control := trb.control / 2 * 2 + trbCycle s.eventWriter.cycle }, source := source }
    eventWriter := s.eventWriter.next eventRingSegmentTrbs }

/-- The event about a TRB: its address, a word with the completion code, the slot and the endpoint. -/
def transferEvent (s : State) (index word2 : Nat) : Trb where
  word0 := (s.ringPhys + 16 * index) % 2 ^ 32
  word1 := (s.ringPhys + 16 * index) / 2 ^ 32
  word2 := word2
  control := s.slotId * 2 ^ 24 + s.endpoint * 2 ^ 16 + transferEventType * typeShift

def Matches (s : State) (t : Trb) : Prop := t.type = transferEventType ∧ t.slotId = s.slotId

instance (s : State) (t : Trb) : Decidable (s.Matches t) := inferInstanceAs (Decidable (_ ∧ _))

end State

inductive ControllerAct where
  /-- Take the next TRB. -/
  | take
  /-- Report the TRB that was taken first. -/
  | report (word2 : Nat)
  /-- An event about something else. -/
  | other (trb : Trb)

def State.act : ControllerAct → State → State
  | .take, s => s.take
  | .report word2, s =>
    match s.taken with
    | [] => s
    | first :: rest =>
      if s.eventRingFull then s
      else { s with taken := rest }.postEvent (s.transferEvent first.index word2) (some first.post)
  | .other trb, s => if s.Matches trb ∨ s.eventRingFull then s else s.postEvent trb none

/-! ## The driver -/

abbrev Driver := Shared State ControllerAct

def setTrb (i : Nat) (f : Trb → Trb) (s : State) : State :=
  { s with ring := Function.update s.ring i { s.ring i with trb := f (s.ring i).trb } }

def xhciMarkTransferTrbInactive (index : Nat) (inactiveCycle : Bool) : List (State → State) :=
  if transferRingTrbs - 1 ≤ index then []
  else
    [setTrb index fun t => { t with word0 := 0 },
     setTrb index fun t => { t with word1 := 0 },
     setTrb index fun t => { t with word2 := 0 },
     setTrb index fun t => { t with control := trbCycle inactiveCycle }]

/-- What follows the TRB to be posted: an inactive one, or the link to an inactive one. -/
def successorStores (ringPhys nextTrb : Nat) (producerCycle : Bool) : List (State → State) :=
  if nextTrb + 1 < transferRingTrbs - 1 then xhciMarkTransferTrbInactive (nextTrb + 1) (!producerCycle)
  else
    [setTrb (transferRingTrbs - 1) fun t => { t with word0 := ringPhys % 2 ^ 32 },
     setTrb (transferRingTrbs - 1) fun t => { t with word1 := ringPhys / 2 ^ 32 % 2 ^ 32 },
     setTrb (transferRingTrbs - 1) fun t => { t with word2 := 0 },
     setTrb (transferRingTrbs - 1) fun t =>
      { t with control := linkTrbType * typeShift + linkToggleCycle + trbCycle producerCycle }] ++
    xhciMarkTransferTrbInactive 0 producerCycle

def prepareStores (ringPhys nextTrb : Nat) (producerCycle : Bool) (buffer length : Nat) : List (State → State) :=
  successorStores ringPhys nextTrb producerCycle ++
    [setTrb nextTrb fun t => { t with word0 := buffer % 2 ^ 32 },
     setTrb nextTrb fun t => { t with word1 := buffer / 2 ^ 32 % 2 ^ 32 },
     setTrb nextTrb fun t => { t with word2 := length % 2 ^ 32 }]

def normalControl (cycle : Bool) : Nat := normalTrbType * typeShift + trbIoc + trbCycle cycle

def handOver (nextTrb : Nat) (producerCycle : Bool) (s : State) : State :=
  { s with
    ring := Function.update s.ring nextTrb
      { trb := { (s.ring nextTrb).trb with control := normalControl producerCycle }, post := s.calls }
    calls := s.calls + 1
    posts := s.posts ++ [{ nextTrb := nextTrb, dequeue := s.dequeue.index }] }

def ringDoorbell (endpoint : Nat) (s : State) : State := { s with rung := true, endpoint := endpoint }

def xhciAdvanceTransferRing (s : State) : State :=
  if s.nextTrb + 1 < transferRingTrbs - 1 then { s with nextTrb := s.nextTrb + 1 }
  else { s with nextTrb := 0, producerCycle := !s.producerCycle, wraps := s.wraps + 1 }

/-- `xhci_advance_transfer_event`, after the register `ERDP` has been written. -/
def xhciAdvanceTransferEvent (s : State) : State :=
  if s.nextTransferEvent + 1 < eventRingSegmentTrbs then
    { s with erdp := s.nextTransferEvent + 1, nextTransferEvent := s.nextTransferEvent + 1 }
  else
    { s with
      erdp := 0
      nextTransferEvent := 0
      transferEventCycle := !s.transferEventCycle
      transferEventWraps := s.transferEventWraps + 1 }

/-- The loop of `xhci_wait_next_transfer_event`: the event it ends with, if any. -/
def pollTransferEvent : Nat → Driver → Option Event × Driver
  | 0, s => (none, s)
  | left + 1, s =>
    let s := s.step State.act
    let event := s.state.eventRing s.state.nextTransferEvent
    if event.trb.cycle ≠ s.state.transferEventCycle then pollTransferEvent left s
    else
      let advanced := { s with state := xhciAdvanceTransferEvent s.state }
      if s.state.Matches event.trb then (some event, advanced) else pollTransferEvent left advanced

def xhciWaitNextTransferEvent (s : Driver) : Option Event × Driver :=
  if s.state.regs = 0 ∨ s.state.runtimeOffset = 0 ∨ s.state.eventRingPhys = 0 ∨
      eventRingSegmentTrbs ≤ s.state.nextTransferEvent then (none, s)
  else pollTransferEvent pollLimit s

/-- The arguments of a call. -/
structure Request where
  endpoint : Nat
  buffer : Nat
  length : Nat

/-- The checks of `xhci_bulk_transfer_dynamic`. -/
def Request.Refused (r : Request) (s : State) : Prop :=
  s.regs = 0 ∨ s.ringPhys = 0 ∨ r.buffer = 0 ∨ r.endpoint = 0 ∨ 32 ≤ r.endpoint ∨ s.slotId = 0 ∨
    s.doorbellOffset = 0 ∨ transferRingTrbs - 1 ≤ s.nextTrb ∨ r.length = 0 ∨ 4096 < r.length

instance (r : Request) (s : State) : Decidable (r.Refused s) := inferInstanceAs (Decidable (_ ∨ _))

/-- `xhci_bulk_transfer_dynamic`: whether the result is 0. -/
def xhciBulkTransferDynamic (r : Request) (s : Driver) : Bool × Driver :=
  if r.Refused s.state then (false, s)
  else
    let call := s.state.calls
    let posted := s.stores State.act
      (prepareStores s.state.ringPhys s.state.nextTrb s.state.producerCycle r.buffer r.length ++
        [handOver s.state.nextTrb s.state.producerCycle, ringDoorbell r.endpoint])
    match xhciWaitNextTransferEvent posted with
    | (none, s) => (false, s)
    | (some event, s) =>
      if event.trb.completionCode ≠ completionSuccess then (false, s)
      else
        let advanced := xhciAdvanceTransferRing s.state
        (true, { s with state :=
          { advanced with answers := advanced.answers ++ [{ call := call, source := event.source }] } })

/-! ## Runs -/

/-- The registers and pages, once the controller is set up. -/
structure Setup where
  regs : Nat
  doorbellOffset : Nat
  runtimeOffset : Nat
  slotId : Nat
  ringPhys : Nat
  eventRingPhys : Nat
  present : regs ≠ 0 ∧ doorbellOffset ≠ 0 ∧ runtimeOffset ≠ 0 ∧ slotId ≠ 0 ∧ ringPhys ≠ 0 ∧ eventRingPhys ≠ 0
  bounded : slotId < 256 ∧ ringPhys < 2 ^ 64
  /-- The TRBs of the probe, three on the way out and six on the way in. -/
  used : List Trb
  usedLength : used.length = 3 ∨ used.length = 6
  /-- The events read before. -/
  events : List Trb
  eventsLength : events.length = 17
  eventsWritten : ∀ t ∈ events, t.cycle

/-- The endpoint as `xhci_configure_first_mass_storage_endpoints` and
    `xhci_set_configuration_and_probe_storage` leave it, with a controller that has done all it was
    asked for. The control word of the first link is still zero: it was written to the word before. -/
def Setup.state (u : Setup) : State where
  regs := u.regs
  doorbellOffset := u.doorbellOffset
  runtimeOffset := u.runtimeOffset
  slotId := u.slotId
  ringPhys := u.ringPhys
  eventRingPhys := u.eventRingPhys
  ring := fun i =>
    { trb :=
        if i = transferRingTrbs - 1 then
          { word0 := u.ringPhys % 2 ^ 32
            word1 := u.ringPhys / 2 ^ 32
            word2 := linkTrbType * typeShift + linkToggleCycle + trbCycle true
            control := 0 }
        else u.used.getD i .zero
      post := 0 }
  nextTrb := u.used.length
  producerCycle := true
  wraps := 0
  eventRing := fun i => { trb := u.events.getD i .zero, source := none }
  nextTransferEvent := 17
  transferEventCycle := true
  transferEventWraps := 0
  erdp := 17
  rung := false
  endpoint := 0
  dequeue := { index := u.used.length, cycle := true }
  taken := []
  eventWriter := { index := 17, cycle := true }
  calls := 0
  consumed := []
  posts := []
  answers := []

/-- A call, and what the controller does during it. -/
structure Call where
  request : Request
  schedule : Nat → List ControllerAct

def Call.run (c : Call) (s : State) : Bool × State :=
  ((xhciBulkTransferDynamic c.request ⟨s, c.schedule⟩).1, (xhciBulkTransferDynamic c.request ⟨s, c.schedule⟩).2.state)

/-- What calls lead to, as long as they are allowed, with the controller acting between them too. -/
inductive BulkRun (allowed : State → Call → Prop) (start : State) : State → Prop
  | start : BulkRun allowed start start
  | controller {s : State} (before : BulkRun allowed start s) (a : ControllerAct) :
      BulkRun allowed start (s.act a)
  | call {s : State} (before : BulkRun allowed start s) (c : Call) (permitted : allowed s c) :
      BulkRun allowed start (c.run s).2

/-- Every TRB was posted where the controller was, and every result 0 was about the call's own TRB. -/
structure Agrees (s : State) : Prop where
  posts : ∀ p ∈ s.posts, p.dequeue = p.nextTrb
  answers : ∀ a ∈ s.answers, a.source = some a.call

end TangPingOS.Xhci
