import TangPingOS.Devices.VirtioBlk

/-! # Whose completion it is

A transfer that finds the device with nothing left to do gets its own completion, whatever
the device's timing. One that finds it with a request of an earlier call, which gave up,
need not: the device's timing decides.
-/

namespace TangPingOS.Virtio

open Lib

variable {moved : Bool} {after s : Driver} {i left n : Nat}

variable {d e : VirtioBlk} {lba : Nat} {write : Bool} {buffer data : Sector}

def requestOf (lba : Nat) (write : Bool) : DeviceRequest where
  id := 0
  type := if write then virtioBlkOut else virtioBlkIn
  sector := lba

theorem VirtioBlk.act_quiet (a : DeviceAct) (d : VirtioBlk) (quiet : d.Quiet) : d.act a = d := by
  cases a with
  | fetch => exact if_pos quiet.2
  | complete index status => simp [VirtioBlk.act, quiet.1]

/-! ## The request -/

/-- What the stores of a request leave alone. -/
structure SameDevice (d e : VirtioBlk) : Prop where
  queueSize : e.queueSize = d.queueSize
  lastUsedIdx : e.lastUsedIdx = d.lastUsedIdx
  availIdx : e.availIdx = d.availIdx
  usedIdx : e.usedIdx = d.usedIdx
  usedRing : e.usedRing = d.usedRing
  lastAvailIdx : e.lastAvailIdx = d.lastAvailIdx
  inflight : e.inflight = d.inflight
  disk : e.disk = d.disk
  served : e.served = d.served

theorem requestStores_same : ∀ f ∈ requestStores lba write buffer, ∀ d, SameDevice d (f d) := by
  simp only [requestStores, List.forall_mem_cons, List.not_mem_nil, false_imp_iff, implies_true, and_true]
  and_intros <;> exact fun _ => ⟨rfl, rfl, rfl, rfl, rfl, rfl, rfl, rfl, rfl⟩

theorem requestStores_quiet (lba : Nat) (write : Bool) (buffer : Sector) :
    ∀ f ∈ requestStores lba write buffer, ∀ d, d.Quiet → (f d).Quiet := by
  intro f member d quiet
  have same := requestStores_same f member d
  exact ⟨same.inflight.trans quiet.1, same.lastAvailIdx.trans (quiet.2.trans same.availIdx.symm)⟩

def filled (lba : Nat) (write : Bool) (buffer : Sector) (d : VirtioBlk) : VirtioBlk :=
  { d with
    data := if write then buffer else .zero
    header := { type := if write then virtioBlkOut else virtioBlkIn, ioprio := 0, sector := lba }
    status := 0xff
    desc := Function.update (Function.update (Function.update d.desc
      0 { addr := d.dmaPhys + dmaHeaderOffset, len := 16, flags := virtqDescNext, next := 1 })
      1 { addr := d.dmaPhys + dmaDataOffset, len := 512,
          flags := virtqDescNext + (if write then 0 else virtqDescWrite), next := 2 })
      2 { addr := d.dmaPhys + dmaStatusOffset, len := 1, flags := virtqDescWrite, next := 0 }
    availRing := Function.update d.availRing (d.availIdx.toNat % d.queueSize) 0 }

theorem requestStores_filled :
    (requestStores lba write buffer).foldl (fun t f => f t) d = filled lba write buffer d := by
  simp [requestStores, setHeader, setDesc, filled]

theorem filled_chain : (filled lba write buffer d).chainAt 0 = some (requestOf lba write) := by
  cases write <;> simp [filled, VirtioBlk.chainAt, requestOf, virtioBlkOut, virtioBlkIn]

theorem filled_ring : (filled lba write buffer d).availRing (d.availIdx.toNat % d.queueSize) = 0 :=
  Function.update_self _ _ _

/-! ## A call of its own -/

def diskAfter (lba : Nat) (write : Bool) (buffer : Sector) (disk : Nat → Sector) : Nat → Sector :=
  if write then Function.update disk lba buffer else disk

/-- What can have become of the request of a call that found the device quiet. -/
inductive Progress (d : VirtioBlk) (lba : Nat) (write : Bool) (buffer : Sector) (e : VirtioBlk) : Prop
  | waiting (chain : e.chainAt 0 = some (requestOf lba write))
      (ring : e.availRing (e.lastAvailIdx.toNat % e.queueSize) = 0) (next : e.lastAvailIdx + 1 = e.availIdx)
      (none : e.inflight = []) (status : e.status = 0xff) (data : write → e.data = buffer)
      (disk : e.disk = d.disk) (served : e.served = d.served)
  | taken (last : e.lastAvailIdx = e.availIdx) (inflight : e.inflight = [requestOf lba write])
      (status : e.status = 0xff) (data : write → e.data = buffer) (disk : e.disk = d.disk)
      (served : e.served = d.served)
  | done (quiet : e.Quiet) (held : e.disk lba = e.data) (data : write → e.data = buffer)
      (disk : e.disk = diskAfter lba write buffer d.disk)
      (served : e.served = d.served ++ [⟨(requestOf lba write).type, lba, e.data⟩])
  | failed (quiet : e.Quiet) (status : e.status ≠ virtioBlkOk)

theorem serve_requestOf (lba : Nat) (data : write → e.data = buffer) (disk : e.disk = d.disk)
    (served : e.served = d.served) :
    let e' := e.serve (requestOf lba write)
    e'.disk lba = e'.data ∧ (write → e'.data = buffer) ∧ e'.disk = diskAfter lba write buffer d.disk ∧
      e'.served = d.served ++ [⟨(requestOf lba write).type, lba, e'.data⟩] := by
  cases write with
  | false => exact ⟨rfl, nofun, disk, congrArg (· ++ _) served⟩
  | true =>
    have stored : (e.serve (requestOf lba true)).disk = Function.update e.disk lba e.data := rfl
    refine ⟨Function.update_self _ _ _, data, ?_, congrArg (· ++ _) served⟩
    rw [stored, disk, data rfl]
    rfl

theorem serve_inflight (r : DeviceRequest) (e : VirtioBlk) : (e.serve r).inflight = e.inflight := by
  unfold VirtioBlk.serve
  split <;> rfl

theorem serve_indices (r : DeviceRequest) (e : VirtioBlk) :
    (e.serve r).lastAvailIdx = e.lastAvailIdx ∧ (e.serve r).availIdx = e.availIdx := by
  unfold VirtioBlk.serve
  split <;> exact ⟨rfl, rfl⟩

theorem Progress.act (a : DeviceAct) (progress : Progress d lba write buffer e) :
    Progress d lba write buffer (e.act a) := by
  cases progress with
  | waiting chain ring next none status data disk served =>
    cases a with
    | fetch =>
      have news : e.lastAvailIdx ≠ e.availIdx := by
        rw [← next]
        simp
      have result : e.act .fetch = { e with lastAvailIdx := e.lastAvailIdx + 1, inflight := [requestOf lba write] } := by
        simp [VirtioBlk.act, VirtioBlk.fetch, if_neg news, none, ring, chain]
      rw [result]
      exact .taken next rfl status data disk served
    | complete index code =>
      have same : e.act (.complete index code) = e := by simp [VirtioBlk.act, none]
      rw [same]
      exact .waiting chain ring next none status data disk served
  | taken last inflight status data disk served =>
    cases a with
    | fetch =>
      have same : e.act .fetch = e := if_pos last
      rw [same]
      exact .taken last inflight status data disk served
    | complete index code =>
      cases index with
      | succ index =>
        have same : e.act (.complete (index + 1) code) = e := by
          simp [VirtioBlk.act, inflight]
        rw [same]
        exact .taken last inflight status data disk served
      | zero =>
        simp only [VirtioBlk.act, inflight, List.getElem?_cons_zero]
        split
        · obtain ⟨held, data, disk, served⟩ :=
            serve_requestOf lba (e := { e with inflight := [] }) data disk served
          have rest := serve_inflight (requestOf lba write) { e with inflight := [] }
          obtain ⟨avail, index⟩ := serve_indices (requestOf lba write) { e with inflight := [] }
          exact .done ⟨rest, avail.trans (last.trans index.symm)⟩ held data disk served
        · rename_i bad
          exact .failed ⟨rfl, last⟩ bad
  | done quiet held data disk served =>
    rw [VirtioBlk.act_quiet a e quiet]
    exact .done quiet held data disk served
  | failed quiet status =>
    rw [VirtioBlk.act_quiet a e quiet]
    exact .failed quiet status

theorem Progress.consume (progress : Progress d lba write buffer e) (n : UInt16) :
    Progress d lba write buffer { e with lastUsedIdx := n } := by
  cases progress with
  | waiting chain ring next none status data disk served => exact .waiting chain ring next none status data disk served
  | taken last inflight status data disk served => exact .taken last inflight status data disk served
  | done quiet held data disk served => exact .done quiet held data disk served
  | failed quiet status => exact .failed quiet status

theorem filled_available (quiet : d.Quiet) :
    Progress d lba write buffer (makeAvailable (filled lba write buffer d)) := by
  have last := quiet.2
  have ring : (filled lba write buffer d).availRing (d.lastAvailIdx.toNat % d.queueSize) = 0 := by
    rw [last]
    exact filled_ring
  have chain : (filled lba write buffer d).chainAt 0 = some (requestOf lba write) := filled_chain
  have data : write → (filled lba write buffer d).data = buffer := fun isWrite => if_pos isWrite
  exact .waiting chain ring (congrArg (· + 1) last) quiet.1 rfl data rfl rfl

theorem progress_made (quiet : d.Quiet) :
    Progress d lba write buffer
      (Shared.stores VirtioBlk.act (transferStores lba write buffer) ⟨d, schedule⟩).state := by
  rw [transferStores, Shared.stores_append]
  generalize isFilled : Shared.stores VirtioBlk.act (requestStores lba write buffer) ⟨d, schedule⟩ = s
  obtain ⟨same, still⟩ := Shared.stores_still (s := ⟨d, schedule⟩) VirtioBlk.act_quiet
    (requestStores_quiet lba write buffer) quiet
  rw [isFilled, requestStores_filled] at same
  rw [isFilled] at still
  -- the device sees the request once the index has moved
  have made : Progress d lba write buffer (makeAvailable (s.step VirtioBlk.act).state) := by
    rw [Shared.step_still VirtioBlk.act_quiet still, same]
    exact filled_available quiet
  exact Shared.step_keeps (s := ⟨_, _⟩) (fun a t => Progress.act a) made

/-! ## The end of a call -/

/-- What the device's actions and the driver's cursor keep is kept by a call, from the doorbell on. -/
structure Stable (P : VirtioBlk → Prop) : Prop where
  act : ∀ a t, P t → P (t.act a)
  consume : ∀ t n, P t → P { t with lastUsedIdx := n }

theorem Stable.completion (stable : Stable P) (start : P s.state) : P (takeCompletion write buffer s).2.state := by
  have consumed : ∀ t : Driver, P t.state → P (Shared.step VirtioBlk.act
      { t.step VirtioBlk.act with state :=
        { (t.step VirtioBlk.act).state with lastUsedIdx := (t.step VirtioBlk.act).state.lastUsedIdx + 1 } }).state :=
    fun t holds => Shared.step_keeps stable.act (stable.consume _ _ (Shared.step_keeps stable.act holds))
  unfold takeCompletion
  simp only
  split
  · exact consumed s start
  · split
    · exact Shared.step_keeps stable.act (consumed s start)
    · exact Shared.step_keeps stable.act (Shared.step_keeps stable.act (consumed s start))

theorem Stable.transfer {P} (stable : Stable P)
    (start : P (s.stores VirtioBlk.act (transferStores lba write buffer)).state) :
    P (virtioBlkTransfer lba write buffer s).2.state := by
  have polled := Shared.poll_keeps stable.act usedMoved spinLimit start
  unfold virtioBlkTransfer
  split
  · rename_i ran
    rw [ran] at polled
    exact polled
  · rename_i ran
    rw [ran] at polled
    exact stable.completion polled

/-- A call with the result 0 has seen the status byte of a success. -/
theorem Stable.succeeded (stable : Stable P)
    (start : P (s.stores VirtioBlk.act (transferStores lba write buffer)).state)
    (ran : virtioBlkTransfer lba write buffer s = (some data, after)) :
    ∃ t : Driver, P t.state ∧ t.state.status = virtioBlkOk ∧ after = t.step VirtioBlk.act ∧
      data = if write then buffer else after.state.data := by
  have polled := Shared.poll_keeps stable.act usedMoved spinLimit start
  unfold virtioBlkTransfer at ran
  split at ran
  · cases ran
  · rename_i s₁ saw
    rw [saw] at polled
    unfold takeCompletion at ran
    simp only at ran
    split at ran
    · cases ran
    · split at ran
      · cases ran
      · rename_i good
        obtain ⟨result, rfl⟩ := Prod.mk.inj ran
        refine ⟨_, ?_, not_not.mp good, rfl, (Option.some.inj result).symm⟩
        exact Shared.step_keeps stable.act
          (Shared.step_keeps stable.act (stable.consume _ _ (Shared.step_keeps stable.act polled)))

theorem Progress.stable : Stable (Progress d lba write buffer) :=
  ⟨fun a _ => Progress.act a, fun _ n progress => progress.consume n⟩

/-- Such a call with the result 0 has been carried out, and leaves the device quiet. -/
theorem quiet_done (quiet : d.Quiet) (ran : virtioBlkTransfer lba write buffer ⟨d, schedule⟩ = (some data, after)) :
    after.state.Quiet ∧ after.state.disk lba = data ∧ (write → data = buffer) ∧
      after.state.disk = diskAfter lba write buffer d.disk ∧
      after.state.served = d.served ++ [⟨(requestOf lba write).type, lba, data⟩] := by
  obtain ⟨t, progress, good, rfl, rfl⟩ := Progress.stable.succeeded (progress_made quiet) ran
  cases progress with
  | waiting _ _ _ _ status _ _ _ | taken _ _ status _ _ _ =>
    rw [status] at good
    exact absurd good (by decide)
  | failed _ status => exact absurd good status
  | done quiet held data disk served =>
    rw [Shared.step_still VirtioBlk.act_quiet quiet]
    have same : (if write then buffer else t.state.data) = t.state.data := by
      split
      · rename_i isWrite
        exact (data isWrite).symm
      · rfl
    rw [same]
    exact ⟨quiet, held, data, disk, served⟩

/-! ## The states that calls lead to -/

/-- What the device leaves alone. -/
structure SameDriver (d e : VirtioBlk) : Prop where
  queueSize : e.queueSize = d.queueSize
  dmaPhys : e.dmaPhys = d.dmaPhys
  lastUsedIdx : e.lastUsedIdx = d.lastUsedIdx
  desc : e.desc = d.desc
  availIdx : e.availIdx = d.availIdx
  availRing : e.availRing = d.availRing
  header : e.header = d.header

theorem serve_same (r : DeviceRequest) (d : VirtioBlk) : SameDriver d (d.serve r) := by
  unfold VirtioBlk.serve
  split <;> exact ⟨rfl, rfl, rfl, rfl, rfl, rfl, rfl⟩

theorem act_same (a : DeviceAct) (d : VirtioBlk) : SameDriver d (d.act a) := by
  cases a with
  | fetch =>
    change SameDriver d d.fetch
    unfold VirtioBlk.fetch
    split <;> exact ⟨rfl, rfl, rfl, rfl, rfl, rfl, rfl⟩
  | complete index status =>
    simp only [VirtioBlk.act]
    split
    · exact ⟨rfl, rfl, rfl, rfl, rfl, rfl, rfl⟩
    · split
      · rename_i r _ _
        have same := serve_same r { d with inflight := d.inflight.eraseIdx index }
        exact ⟨same.queueSize, same.dmaPhys, same.lastUsedIdx, same.desc, same.availIdx, same.availRing, same.header⟩
      · exact ⟨rfl, rfl, rfl, rfl, rfl, rfl, rfl⟩

theorem chainAt_congr (desc : e.desc = d.desc) (header : e.header = d.header) (dmaPhys : e.dmaPhys = d.dmaPhys) : e.chainAt head = d.chainAt head := by
  simp only [VirtioBlk.chainAt, desc, header, dmaPhys]

theorem chainAt_id (found : d.chainAt head = some r) : r.id = head := by
  unfold VirtioBlk.chainAt at found
  simp only [Option.ite_none_right_eq_some] at found
  rw [← Option.some.inj found.2]

/-- All requests start at descriptor 0. -/
structure Plain (d : VirtioBlk) : Prop where
  ring : ∀ i, d.availRing i = 0
  used : ∀ i, (d.usedRing i).id = 0
  ids : ∀ r ∈ d.inflight, r.id = 0

theorem Plain.serve (plain : Plain d) : Plain (d.serve r) := by
  unfold VirtioBlk.serve
  split <;> exact ⟨plain.ring, plain.used, plain.ids⟩

theorem Plain.finish (plain : Plain d) (zero : r.id = 0) : Plain (d.finish r status) := by
  refine ⟨plain.ring, ?_, plain.ids⟩
  intro i
  simp only [VirtioBlk.finish, Function.update_apply]
  split
  · exact zero
  · exact plain.used i

theorem Plain.act (a : DeviceAct) (d : VirtioBlk) (plain : Plain d) : Plain (d.act a) := by
  cases a with
  | fetch =>
    change Plain d.fetch
    unfold VirtioBlk.fetch
    split
    · exact plain
    · refine ⟨plain.ring, plain.used, ?_⟩
      intro r member
      rcases List.mem_append.mp member with old | new
      · exact plain.ids r old
      · have found := Option.mem_toList.mp new
        rw [plain.ring] at found
        exact chainAt_id found
  | complete index status =>
    simp only [VirtioBlk.act]
    split
    · exact plain
    · rename_i r found
      have rest : Plain { d with inflight := d.inflight.eraseIdx index } :=
        ⟨plain.ring, plain.used, fun r member => plain.ids r (List.mem_of_mem_eraseIdx member)⟩
      have zero : r.id = 0 := plain.ids r (List.mem_of_getElem? found)
      split
      · exact rest.serve.finish zero
      · exact rest.finish zero

section

variable (lba : Nat) (write : Bool) (buffer : Sector)

theorem requestStores_ring :
    ∀ f ∈ requestStores lba write buffer, ∀ d : VirtioBlk, (∀ i, d.availRing i = 0) → ∀ i, (f d).availRing i = 0 := by
  simp only [requestStores, List.forall_mem_cons, List.not_mem_nil, false_imp_iff, implies_true, and_true]
  and_intros <;> intro d zero i <;> simp [setHeader, setDesc, Function.update_apply, zero]

theorem transferStores_plain : ∀ f ∈ transferStores lba write buffer, ∀ d, Plain d → Plain (f d) := by
  intro f member d plain
  rcases List.mem_append.mp member with early | late
  · have same := requestStores_same f early d
    refine ⟨requestStores_ring lba write buffer f early d plain.ring, ?_, ?_⟩
    · rw [same.usedRing]
      exact plain.used
    · rw [same.inflight]
      exact plain.ids
  · simp only [List.mem_cons, List.not_mem_nil, or_false] at late
    rcases late with rfl | rfl <;> exact ⟨plain.ring, plain.used, plain.ids⟩

/-- A request that the device has not taken yet is one it can take. -/
structure Tidy (d : VirtioBlk) : Prop extends Plain d where
  chained : d.lastAvailIdx = d.availIdx ∨ (d.chainAt 0).isSome

theorem act_caught (caught : d.lastAvailIdx = d.availIdx) : (d.act a).lastAvailIdx = (d.act a).availIdx := by
  cases a with
  | fetch =>
    have same : d.act .fetch = d := if_pos caught
    rw [same]
    exact caught
  | complete index status =>
    simp only [VirtioBlk.act]
    split
    · exact caught
    · split
      · obtain ⟨avail, index⟩ := serve_indices ‹_› { d with inflight := d.inflight.eraseIdx index }
        exact avail.trans (caught.trans index.symm)
      · exact caught

theorem Tidy.act (a : DeviceAct) (d : VirtioBlk) (tidy : Tidy d) : Tidy (d.act a) := by
  refine ⟨Plain.act a d tidy.toPlain, ?_⟩
  obtain caught | chained := tidy.chained
  · exact .inl (act_caught caught)
  · have same := act_same a d
    rw [chainAt_congr same.desc same.header same.dmaPhys]
    exact .inr chained

/-- What the device reads of a request. -/
structure SameChain (d e : VirtioBlk) : Prop where
  desc : d.desc = e.desc
  header : d.header = e.header
  dmaPhys : d.dmaPhys = e.dmaPhys

theorem requestStores_chain :
    ∀ f ∈ requestStores lba write buffer, ∀ d e, SameChain d e → SameChain (f d) (f e) := by
  simp only [requestStores, List.forall_mem_cons, List.not_mem_nil, false_imp_iff, implies_true, and_true]
  and_intros <;> rintro d e ⟨desc, header, dmaPhys⟩ <;> constructor <;>
    simp only [setHeader, setDesc, desc, header, dmaPhys]

end

/-- Whatever the device did meanwhile, the request stands in memory. -/
theorem stores_chain :
    (s.stores VirtioBlk.act (transferStores lba write buffer)).state.chainAt 0 = some (requestOf lba write) := by
  have acts : ∀ a d e, SameChain d e → SameChain (d.act a) e := by
    intro a d e chain
    have same := act_same a d
    exact ⟨same.desc.trans chain.desc, same.header.trans chain.header, same.dmaPhys.trans chain.dmaPhys⟩
  have filledIn := Shared.stores_related (s := s) acts (requestStores_chain lba write buffer) ⟨rfl, rfl, rfl⟩
  rw [requestStores_filled] at filledIn
  have last : ∀ f ∈ [makeAvailable, id], ∀ d e, SameChain d e → SameChain (f d) (f e) := by
    intro f member d e chain
    simp only [List.mem_cons, List.not_mem_nil, or_false] at member
    rcases member with rfl | rfl <;> exact ⟨chain.desc, chain.header, chain.dmaPhys⟩
  have made := Shared.stores_related acts last filledIn
  have chain : (filled lba write buffer s.state).chainAt 0 = some (requestOf lba write) := filled_chain
  rw [transferStores, Shared.stores_append, chainAt_congr made.desc made.header made.dmaPhys]
  exact chain

theorem Tidy.stable : Stable Tidy :=
  ⟨Tidy.act, fun _ _ tidy => ⟨⟨tidy.ring, tidy.used, tidy.ids⟩, tidy.chained⟩⟩

theorem VirtioRun.tidy (run : VirtioRun d) : Tidy d := by
  induction run with
  | init queueSize dmaPhys disk _ => exact ⟨⟨fun _ => rfl, fun _ => rfl, nofun⟩, .inl rfl⟩
  | device _ a ih => exact ih.act a
  | @transfer d _ schedule lba write buffer ih =>
    refine Tidy.stable.transfer ⟨?_, .inr ?_⟩
    · exact Shared.stores_keep (s := ⟨d, schedule⟩) Plain.act (transferStores_plain lba write buffer) ih.toPlain
    · rw [stores_chain]
      rfl

/-! ## A call that finds a request of another -/

theorem act_complete {r : DeviceRequest} {rest : List DeviceRequest} (taken : d.inflight = r :: rest) :
    let e := d.act (.complete 0 virtioBlkOk)
    e.status = virtioBlkOk ∧ e.usedIdx = d.usedIdx + 1 ∧ ∀ other, other ≠ r.sector → e.disk other = d.disk other := by
  simp only [VirtioBlk.act, taken, List.getElem?_cons_zero, if_true]
  refine ⟨rfl, ?_, ?_⟩
  · simp only [VirtioBlk.serve]
    split <;> rfl
  · intro other apart
    simp only [VirtioBlk.serve]
    split
    · rfl
    · exact Function.update_of_ne apart _ _

/-- After the completion the device waits, so the driver finds what it expects. -/
theorem takeCompletion_taken (buffer : Sector) (idle : ∀ n, s.schedule (n + 1) = [])
    (first : ∀ i, ((s.step VirtioBlk.act).state.usedRing i).id = 0)
    (good : (s.step VirtioBlk.act).state.status = virtioBlkOk) :
    ∃ after, takeCompletion true buffer s = (some buffer, after) ∧
      after.state.disk = (s.step VirtioBlk.act).state.disk := by
  unfold takeCompletion
  generalize isTaken : s.step VirtioBlk.act = t at first good
  have waits : ∀ n, t.schedule n = [] := by
    intro n
    rw [← isTaken]
    exact idle n
  simp only [first, Shared.step_idle, waits, good]
  exact ⟨_, rfl, rfl⟩

/-- The device completes the other request just when the call looks: at its first look at the used
    index, or right after it if the index has moved before. -/
def lateSchedule (moved : Bool) (n : Nat) : List DeviceAct :=
  if n = (if moved then 21 else 20) then [.complete 0 virtioBlkOk] else []

theorem lateSchedule_waits (other : n ≠ if moved then 21 else 20) :
    lateSchedule moved n = [] := if_neg other

theorem lateSchedule_early (early : n < 20) : lateSchedule moved n = [] :=
  lateSchedule_waits (by split <;> omega)

theorem poll_late (taken : e.inflight = r :: rest) :
    ∃ s : Driver, Shared.poll VirtioBlk.act usedMoved spinLimit ⟨e, fun n => lateSchedule (usedMoved e) (n + 20)⟩
        = (true, s) ∧
      (s.step VirtioBlk.act).state = e.act (.complete 0 virtioBlkOk) ∧ ∀ n, s.schedule (n + 1) = [] := by
  have some_ : 0 < spinLimit := by decide
  cases moved : usedMoved e with
  | true =>
    have step : Shared.step VirtioBlk.act ⟨e, fun n => lateSchedule true (n + 20)⟩
        = ⟨e, fun n => lateSchedule true (n + 21)⟩ := Shared.step_idle rfl
    have later : ∀ n, lateSchedule true (n + 22) = [] :=
      fun n => lateSchedule_waits (by rw [if_pos rfl]; omega)
    refine ⟨_, Shared.poll_first some_ ?_, ?_, ?_⟩
    · exact moved
    · rfl
    · intro n
      exact later n
  | false =>
    obtain ⟨-, used, -⟩ := act_complete taken
    have last := (act_same (.complete 0 virtioBlkOk) e).lastUsedIdx
    have same : e.usedIdx = e.lastUsedIdx := by
      unfold usedMoved at moved
      simpa using moved
    have later : ∀ n, lateSchedule false (n + 21) = [] :=
      fun n => lateSchedule_waits (by rw [if_neg Bool.false_ne_true]; omega)
    refine ⟨_, Shared.poll_first some_ ?_, ?_, fun n => later (n + 1)⟩
    · change usedMoved (e.act (.complete 0 virtioBlkOk))
      rw [usedMoved, used, last, same]
      simp
    · rfl

theorem busy_breaks (plain : Plain d) (taken : d.inflight = r :: rest) (apart : lba ≠ r.sector) (buffer : Sector) :
    ∃ after, virtioBlkTransfer lba true buffer ⟨d, lateSchedule (usedMoved d)⟩ = (some buffer, after) ∧
      after.state.disk lba = d.disk lba := by
  have posted : Shared.stores VirtioBlk.act (transferStores lba true buffer) ⟨d, lateSchedule (usedMoved d)⟩
      = ⟨makeAvailable (filled lba true buffer d), fun n => lateSchedule (usedMoved d) (n + 20)⟩ := by
    rw [Shared.stores_idle fun n early => lateSchedule_early early, transferStores, List.foldl_append,
      requestStores_filled]
    rfl
  have plainly := Shared.stores_keep (s := ⟨d, lateSchedule (usedMoved d)⟩) Plain.act
    (transferStores_plain lba true buffer) plain
  rw [posted] at plainly
  have inflight : (makeAvailable (filled lba true buffer d)).inflight = r :: rest := taken
  obtain ⟨good, -, others⟩ := act_complete inflight
  have first := (Plain.act (.complete 0 virtioBlkOk) _ plainly).used
  obtain ⟨s, polled, completed, idle⟩ := poll_late inflight
  rw [← completed] at good first others
  obtain ⟨after, ran, disk⟩ := takeCompletion_taken buffer idle first good
  refine ⟨after, ?_, ?_⟩
  · have same : usedMoved d = usedMoved (makeAvailable (filled lba true buffer d)) := rfl
    rw [virtioBlkTransfer, posted, same, polled]
    exact ran
  · rw [disk]
    exact others lba apart

/-- A request that waits is taken before the call makes its own. -/
theorem transfer_ahead (waits : schedule 0 = []) :
    virtioBlkTransfer lba write buffer ⟨d, Function.update schedule 0 [a]⟩
      = virtioBlkTransfer lba write buffer ⟨d.act a, schedule⟩ := by
  have same : Shared.step VirtioBlk.act ⟨d, Function.update schedule 0 [a]⟩
      = Shared.step VirtioBlk.act ⟨d.act a, schedule⟩ := by
    simp [Shared.step, waits]
  obtain ⟨f, fs, isStores⟩ : ∃ f fs, transferStores lba write buffer = f :: fs := ⟨_, _, rfl⟩
  unfold virtioBlkTransfer
  rw [isStores, Shared.stores_ahead same]

theorem fetch_chained (caught : d.lastAvailIdx ≠ d.availIdx) (plain : Plain d)
    (chain : d.chainAt 0 = some r) : (d.act .fetch).inflight = d.inflight ++ [r] := by
  simp [VirtioBlk.act, VirtioBlk.fetch, if_neg caught, plain.ring, chain]

theorem other_sector (sector : Sector) : ∃ buffer : Sector, buffer ≠ sector := by
  by_cases zero : sector = .zero
  · refine ⟨Buf.set .zero 0 1, ?_⟩
    rw [zero]
    intro same
    have first := congrArg (Buf.get · 0) same
    exact absurd first (by decide)
  · exact ⟨.zero, fun same => zero same.symm⟩

/-- A write whose data the device does not hold, although the result is 0. -/
theorem busy_wrong (plain : Plain d) (taken : d.inflight = r :: rest) :
    ∃ lba buffer after, virtioBlkTransfer lba true buffer ⟨d, lateSchedule (usedMoved d)⟩ = (some buffer, after) ∧
      after.state.disk lba ≠ buffer := by
  obtain ⟨lba, apart⟩ : ∃ lba, lba ≠ r.sector := ⟨if r.sector = 0 then 1 else 0, by split <;> omega⟩
  obtain ⟨buffer, differs⟩ := other_sector (d.disk lba)
  obtain ⟨after, ran, disk⟩ := busy_breaks plain taken apart buffer
  refine ⟨lba, buffer, after, ran, ?_⟩
  rw [disk]
  exact differs.symm

/-- Whatever the device's timing, a call's result 0 is that of its own request, exactly when the device
    has nothing left to do as the call starts. -/
theorem completions_belong_iff (run : VirtioRun d) :
    (∀ schedule lba write buffer data after,
      virtioBlkTransfer lba write buffer ⟨d, schedule⟩ = (some data, after) →
      (write = true → data = buffer) ∧ Belongs lba write data d after.state) ↔ d.Quiet := by
  constructor
  · intro belongs
    have tidy := run.tidy
    have inflight : d.inflight = [] := by
      cases taken : d.inflight with
      | nil => rfl
      | cons r rest =>
        obtain ⟨lba, buffer, after, ran, wrong⟩ := busy_wrong tidy.toPlain taken
        exact absurd (belongs _ _ _ _ _ _ ran).2.held wrong
    refine ⟨inflight, by_contra fun waiting => ?_⟩
    -- a request that waits can be taken as it was before the call changes it
    obtain ⟨r, chain⟩ := Option.isSome_iff_exists.mp (tidy.chained.resolve_left waiting)
    have taken : (d.act .fetch).inflight = [r] := by
      rw [fetch_chained waiting tidy.toPlain chain, inflight, List.nil_append]
    obtain ⟨lba, buffer, after, ran, wrong⟩ := busy_wrong (Plain.act .fetch d tidy.toPlain) taken
    rw [← transfer_ahead (lateSchedule_early (by decide))] at ran
    exact absurd (belongs _ _ _ _ _ _ ran).2.held wrong
  · intro quiet schedule lba write buffer data after ran
    obtain ⟨-, held, same, -, served⟩ := quiet_done quiet ran
    exact ⟨same, held, _, served, List.mem_singleton_self _⟩

/-- A disk whose blocks 0 and 1 differ, as `virtio_blk_init` finds it. -/
def numberedDisk : VirtioBlk := virtioBlkInit 128 0x1000 fun n => Buf.set .zero 0 (UInt8.ofNat n)

theorem numberedDisk_run : VirtioRun numberedDisk := .init 128 0x1000 _ (by decide)

theorem completions_belong_first :
    numberedDisk.Quiet ∧ ∀ schedule lba write buffer data after,
      virtioBlkTransfer lba write buffer ⟨numberedDisk, schedule⟩ = (some data, after) →
      (write = true → data = buffer) ∧ Belongs lba write data numberedDisk after.state := by
  have quiet : numberedDisk.Quiet := ⟨rfl, rfl⟩
  exact ⟨quiet, (completions_belong_iff numberedDisk_run).mpr quiet⟩

/-! ## A late completion -/

theorem transfer_gives_up (idle : ∀ n, 20 ≤ n → s.schedule n = [])
    (still : usedMoved (s.stores VirtioBlk.act (transferStores lba write buffer)).state = false) :
    (virtioBlkTransfer lba write buffer s).2.state =
      (s.stores VirtioBlk.act (transferStores lba write buffer)).state := by
  have waits : ∀ n < spinLimit, (s.stores VirtioBlk.act (transferStores lba write buffer)).schedule n = [] := by
    intro n _
    exact idle _ (Nat.le_add_left 20 n)
  unfold virtioBlkTransfer
  rw [Shared.poll_idle waits still]

def actsAt (at_ : Nat) (acts : List DeviceAct) (n : Nat) : List DeviceAct := if n = at_ then acts else []

def probed : VirtioBlk :=
  (virtioBlkTransfer 0 false .zero ⟨numberedDisk, actsAt 20 [.fetch, .complete 0 virtioBlkOk]⟩).2.state

/-- A read of block 0, which the device takes but does not complete before the driver gives up. -/
def leftBehind : VirtioBlk :=
  (Shared.stores VirtioBlk.act (transferStores 0 false .zero) ⟨probed, actsAt 19 [.fetch]⟩).state

theorem leftBehind_run : VirtioRun leftBehind := by
  have still : usedMoved leftBehind = false := by decide +kernel
  have idle : ∀ n, 20 ≤ n → actsAt 19 [.fetch] n = [] := fun n late => if_neg (by omega)
  have same := transfer_gives_up (s := ⟨probed, actsAt 19 [.fetch]⟩) idle still
  have run : VirtioRun probed := .transfer numberedDisk_run _ 0 false .zero
  have later : VirtioRun (virtioBlkTransfer 0 false .zero ⟨probed, actsAt 19 [.fetch]⟩).2.state :=
    .transfer run _ 0 false .zero
  rw [same] at later
  exact later

/-- The next call reads block 1 and gets block 0. -/
theorem late_completion_taken : VirtioRun leftBehind ∧ ∃ data after,
    virtioBlkTransfer 1 false .zero ⟨leftBehind, actsAt 20 [.complete 0 virtioBlkOk]⟩ = (some data, after) ∧
      data.get 0 = (after.state.disk 0).get 0 ∧ data ≠ after.state.disk 1 := by
  refine ⟨leftBehind_run, ?_⟩
  obtain ⟨⟨result, after⟩, ran⟩ : ∃ r,
    virtioBlkTransfer 1 false .zero ⟨leftBehind, actsAt 20 [.complete 0 virtioBlkOk]⟩ = r := ⟨_, rfl⟩
  have seen : (result.map fun data => (data.get 0, (after.state.disk 0).get 0, (after.state.disk 1).get 0))
      = some (0, 0, 1) := by
    have evaluated : (fun r : Option Sector × Driver => r.1.map fun data =>
        (data.get 0, (r.2.state.disk 0).get 0, (r.2.state.disk 1).get 0))
        (virtioBlkTransfer 1 false .zero ⟨leftBehind, actsAt 20 [.complete 0 virtioBlkOk]⟩) = some (0, 0, 1) := by
      decide +kernel
    rw [ran] at evaluated
    exact evaluated
  cases result with
  | none => cases seen
  | some data =>
    obtain ⟨zero, held, other⟩ : data.get 0 = 0 ∧ (after.state.disk 0).get 0 = 0 ∧ (after.state.disk 1).get 0 = 1 := by
      simpa only [Option.map_some, Option.some.injEq, Prod.mk.injEq] using seen
    refine ⟨data, after, ran, zero.trans held.symm, ?_⟩
    intro same
    rw [same, other] at zero
    exact absurd zero (by decide)

end TangPingOS.Virtio
