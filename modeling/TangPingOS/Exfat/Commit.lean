import TangPingOS.Exfat.Transaction
import TangPingOS.Lib.Staging

/-! # What a transaction does to the device

On a device that accepts the sectors asked for, staging a patch fails only when a
fifth sector would be needed, and a commit turns the device into the one seen
through the staged images: the patches applied to it in order.
-/

namespace TangPingOS

open Lib

variable {d : Device} {m : Mount} {lba : Nat} {tx tx' : Transaction}

namespace Device

def patch (d : Device) (lba : Nat) (p : Patch) : Device :=
  d.put lba ((p.apply (d.data lba)).getD (d.data lba))

def patchAll : List (Nat × Patch) → Device → Device
  | [], d => d
  | (lba, p) :: rest, d => patchAll rest (d.patch lba p)

def Applies : Device → List (Nat × Patch) → Prop
  | _, [] => True
  | d, (lba, p) :: rest => (p.apply (d.data lba)).isSome ∧ Applies (d.patch lba p) rest

/-- Same size, same faults, same protection: only sector contents differ. -/
structure SameShape (d d' : Device) : Prop where
  blockCount : d'.blockCount = d.blockCount
  writable : d'.writable = d.writable
  fault : d'.fault = d.fault

namespace SameShape

variable {d' d'' : Device}

theorem refl (d : Device) : SameShape d d := ⟨rfl, rfl, rfl⟩

theorem trans (h : SameShape d d') (h' : SameShape d' d'') : SameShape d d'' :=
  ⟨h'.blockCount.trans h.blockCount, h'.writable.trans h.writable, h'.fault.trans h.fault⟩

theorem accepts (h : SameShape d d') : d'.accepts lba = d.accepts lba := by
  rw [Device.accepts, Device.accepts, h.blockCount, h.fault]

end SameShape

theorem sameShape_put (d : Device) (lba : Nat) (s : Sector) : SameShape d (d.put lba s) :=
  ⟨rfl, rfl, rfl⟩

theorem sameShape_patch (d : Device) (lba : Nat) (p : Patch) : SameShape d (d.patch lba p) :=
  sameShape_put d lba _

theorem sameShape_patchAll (ps : List (Nat × Patch)) (d : Device) : SameShape d (patchAll ps d) := by
  induction ps generalizing d with
  | nil => exact .refl d
  | cons lp rest ih => exact (sameShape_patch d _ _).trans (ih _)

theorem patchAll_cons (lp : Nat × Patch) :
    patchAll (lp :: rest) d = patchAll rest (d.patch lp.1 lp.2) := rfl

theorem patchAll_append (d : Device) : patchAll (ps ++ qs) d = patchAll qs (patchAll ps d) := by
  induction ps generalizing d with
  | nil => rfl
  | cons lp rest ih => exact ih _

theorem applies_append : Applies d (ps ++ qs) ↔ Applies d ps ∧ Applies (patchAll ps d) qs := by
  induction ps generalizing d with
  | nil => simp [Applies, patchAll]
  | cons lp rest ih => simp [Applies, patchAll, ih, and_assoc]

theorem patch_data_other (p : Patch) (apart : other ≠ lba) : (d.patch lba p).data other = d.data other :=
  put_data_other apart

theorem patchAll_data_other (apart : ∀ lp ∈ ps, lba ≠ lp.1) : (patchAll ps d).data lba = d.data lba := by
  induction ps generalizing d with
  | nil => rfl
  | cons lp rest ih =>
    rw [patchAll, ih fun q member => apart q (List.mem_cons_of_mem _ member),
      patch_data_other _ (apart lp List.mem_cons_self)]

end Device

theorem rawBytesEqual_self : rawBytesEqual s s len := by
  simp [rawBytesEqual]

theorem writeExfatSectorChecked_ok (s : Sector)
    (size : m.blockSize = 512) (writable : d.writable) (accepted : d.accepts lba) :
    writeExfatSectorChecked m d lba s = (d.put lba s, true) := by
  simp [writeExfatSectorChecked, blockWrite, blockRead, size, writable, accepted,
    rawBytesEqual_self]

namespace Transaction

abbrev lbas (tx : Transaction) : List Nat := tx.map Prod.fst

def view (d : Device) (tx : Transaction) : Device := { d with data := overlay d.data tx }

@[simp] theorem view_nil : view d [] = d := rfl

/-- What every transaction built by `get` and `mutate` keeps. -/
structure Staged (d : Device) (tx : Transaction) : Prop where
  distinct : tx.lbas.Nodup
  few : tx.length ≤ exfatTestTxMaxSectors
  accepted : ∀ lba ∈ tx.lbas, d.accepts lba

theorem has_iff : tx.has lba ↔ lba ∈ tx.lbas := by
  simp [has]

theorem staged_nil : Staged d [] := ⟨List.nodup_nil, by decide, by simp⟩

theorem lbas_store : (tx.store lba s).lbas = tx.lbas := by
  simp only [store, List.map_map]
  refine List.map_congr_left fun image _ => ?_
  by_cases here : image.1 = lba
  · simp [here]
  · simp [here]

theorem Staged.store (staged : Staged d tx) (lba : Nat) (s : Sector) : Staged d (tx.store lba s) where
  distinct := by rw [lbas_store]; exact staged.distinct
  few := by simpa [Transaction.store] using staged.few
  accepted := by rw [lbas_store]; exact staged.accepted

/-- There is a slot for one of few sectors, all that are staged being among them. -/
theorem Staged.room (staged : Staged d tx) {sectors : Finset Nat} (held : ∀ other ∈ tx.lbas, other ∈ sectors)
    (small : sectors.card ≤ exfatTestTxMaxSectors) (member : lba ∈ sectors) :
    lba ∈ tx.lbas ∨ tx.length < exfatTestTxMaxSectors := by
  refine or_iff_not_imp_left.mpr fun absent => ?_
  have grown : (insert lba tx.lbas.toFinset).card ≤ sectors.card := by
    refine Finset.card_le_card (Finset.insert_subset member fun other listed => ?_)
    exact held other (List.mem_toFinset.mp listed)
  rw [Finset.card_insert_of_notMem (by simpa using absent), List.toFinset_card_of_nodup staged.distinct,
    List.length_map] at grown
  omega

theorem view_store (s : Sector) (present : lba ∈ tx.lbas) : view d (tx.store lba s) = (view d tx).put lba s := by
  simp only [view, store, Device.put, overlay_replace present]

/-- The staged image of a sector is what the overlay shows there. -/
theorem sector_eq (d : Device) (present : lba ∈ tx.lbas) : tx.sector lba = (view d tx).data lba := by
  simp only [sector, view, overlay]
  cases found : tx.lookup lba with
  | some s => rfl
  | none =>
    obtain ⟨image, member, same⟩ := List.mem_map.mp present
    have missing := List.lookup_eq_none_iff.mp found image member
    simp [same] at missing

/-- `get` stages a sector that is not staged yet, if there is room. -/
theorem get_ok (size : m.blockSize = 512) (staged : Staged d tx) (accepted : d.accepts lba)
    (room : lba ∈ tx.lbas ∨ tx.length < exfatTestTxMaxSectors) :
    ∃ tx', tx.get m d lba = some tx' ∧ Staged d tx' ∧ view d tx' = view d tx ∧
      lba ∈ tx'.lbas ∧ tx'.lbas.toFinset = insert lba tx.lbas.toFinset := by
  by_cases present : lba ∈ tx.lbas
  · refine ⟨tx, ?_, staged, rfl, present, ?_⟩
    · simp [get, size, has_iff.mpr present]
    · rw [Finset.insert_eq_of_mem (List.mem_toFinset.mpr present)]
  · have fits := room.resolve_left present
    have absent : tx.has lba = false := by simpa using mt has_iff.mp present
    refine ⟨tx ++ [(lba, d.data lba)], ?_, ⟨?_, ?_, ?_⟩, ?_, by simp [lbas], ?_⟩
    · simp [get, size, absent, Nat.not_le.mpr fits, blockRead, accepted]
    · simp only [List.map_append, List.map_cons, List.map_nil]
      exact List.nodup_append.mpr ⟨staged.distinct, List.nodup_singleton lba, by
        intro a member b isLba same
        rw [List.mem_singleton] at isLba
        exact present (isLba ▸ same ▸ member)⟩
    · rw [List.length_append]
      exact fits
    · simp only [List.map_append, List.map_cons, List.map_nil, List.mem_append,
        List.mem_singleton]
      rintro other (old | rfl)
      · exact staged.accepted other old
      · exact accepted
    · simp only [view, overlay_stage present]
    · simp [lbas]

theorem get_full (absent : lba ∉ tx.lbas) (full : exfatTestTxMaxSectors ≤ tx.length) : tx.get m d lba = none := by
  have missing : tx.has lba = false := by simpa using mt has_iff.mp absent
  simp [get, missing, full]

theorem mutate_ok (size : m.blockSize = 512) (staged : Staged d tx)
    (accepted : d.accepts lba) (applies : (p.apply ((view d tx).data lba)).isSome)
    (room : lba ∈ tx.lbas ∨ tx.length < exfatTestTxMaxSectors) :
    ∃ tx', tx.mutate m d lba p = some tx' ∧ Staged d tx' ∧
      view d tx' = (view d tx).patch lba p ∧ tx'.lbas.toFinset = insert lba tx.lbas.toFinset := by
  obtain ⟨tx', got, staged', same, present, grown⟩ := get_ok size staged accepted room
  obtain ⟨s, applied⟩ := Option.isSome_iff_exists.mp applies
  refine ⟨tx'.store lba s, ?_, staged'.store lba s, ?_, by rw [lbas_store, grown]⟩
  · simp [mutate, got, sector_eq d present, same, applied]
  · rw [view_store s present, same, Device.patch, applied, Option.getD_some]

def mutateAll (m : Mount) (d : Device) : List (Nat × Patch) → Transaction → Option Transaction
  | [], tx => some tx
  | (lba, p) :: rest, tx =>
    match tx.mutate m d lba p with
    | none => none
    | some tx' => mutateAll m d rest tx'

theorem mutateAll_cons (lp : Nat × Patch) :
    mutateAll m d (lp :: rest) tx = (tx.mutate m d lp.1 lp.2).bind (mutateAll m d rest) := by
  rw [mutateAll]
  cases tx.mutate m d lp.1 lp.2 <;> rfl

theorem mutateAll_append (tx : Transaction) :
    mutateAll m d (ps ++ qs) tx = (mutateAll m d ps tx).bind (mutateAll m d qs) := by
  induction ps generalizing tx with
  | nil => rfl
  | cons lp rest ih =>
    rw [List.cons_append, mutateAll_cons, mutateAll_cons]
    cases tx.mutate m d lp.1 lp.2 with
    | none => rfl
    | some tx' => exact ih tx'

def sectors (tx : Transaction) (ps : List (Nat × Patch)) : Finset Nat :=
  tx.lbas.toFinset ∪ (ps.map Prod.fst).toFinset

theorem sectors_cons (p : Patch) (rest : List (Nat × Patch))
    (grown : tx'.lbas.toFinset = insert lba tx.lbas.toFinset) :
    tx'.sectors rest = tx.sectors ((lba, p) :: rest) := by
  ext a
  simp only [sectors, grown, List.map_cons, List.toFinset_cons, Finset.mem_union,
    Finset.mem_insert]
  tauto

section

variable (size : m.blockSize = 512)

include size

section

variable (staged : Staged d tx) (accepted : ∀ lp ∈ ps, d.accepts lp.1) (applies : (view d tx).Applies ps)

include staged accepted applies

/-- Staging succeeds when at most four sectors are needed in all, and shows the patched
    device. -/
theorem mutateAll_ok (few : (tx.sectors ps).card ≤ exfatTestTxMaxSectors) :
    ∃ tx', mutateAll m d ps tx = some tx' ∧ Staged d tx' ∧ view d tx' = Device.patchAll ps (view d tx) := by
  induction ps generalizing tx with
  | nil => exact ⟨tx, rfl, staged, rfl⟩
  | cons lp rest ih =>
    obtain ⟨lba, p⟩ := lp
    have listed : lba ∈ tx.sectors ((lba, p) :: rest) := by simp [sectors]
    have room := staged.room (fun other held => Finset.mem_union_left _ (List.mem_toFinset.mpr held)) few listed
    obtain ⟨tx', mutated, staged', shown, grown⟩ :=
      mutate_ok size staged (accepted _ List.mem_cons_self) applies.1 room
    have same := sectors_cons p rest grown
    obtain ⟨tx'', rests, staged'', shown'⟩ :=
      ih staged' (fun q member => accepted q (List.mem_cons_of_mem _ member))
        (shown ▸ applies.2) (same ▸ few)
    exact ⟨tx'', by simp [mutateAll, mutated, rests], staged'', by
      rw [shown', shown, Device.patchAll]⟩

theorem mutateAll_full (many : exfatTestTxMaxSectors < (tx.sectors ps).card) : mutateAll m d ps tx = none := by
  induction ps generalizing tx with
  | nil =>
    have count : (tx.sectors []).card = tx.length := by
      simp [sectors, List.toFinset_card_of_nodup staged.distinct]
    have few := staged.few
    omega
  | cons lp rest ih =>
    obtain ⟨lba, p⟩ := lp
    by_cases room : lba ∈ tx.lbas ∨ tx.length < exfatTestTxMaxSectors
    · obtain ⟨tx', mutated, staged', shown, grown⟩ :=
        mutate_ok size staged (accepted _ List.mem_cons_self) applies.1 room
      have same := sectors_cons p rest grown
      simp only [mutateAll, mutated]
      exact ih staged' (fun q member => accepted q (List.mem_cons_of_mem _ member))
        (shown ▸ applies.2) (same ▸ many)
    · obtain ⟨absent, full⟩ := not_or.mp room
      simp [mutateAll, mutate, get_full absent (Nat.not_lt.mp full)]

end

theorem writeBack_ok (writable : d.writable) (distinct : tx.lbas.Nodup)
    (accepted : ∀ lba ∈ tx.lbas, d.accepts lba) : writeBack m tx d = (view d tx, true) := by
  induction tx generalizing d with
  | nil => rfl
  | cons image rest ih =>
    obtain ⟨lba, s⟩ := image
    obtain ⟨fresh, later⟩ := List.nodup_cons.mp distinct
    have here := writeExfatSectorChecked_ok s size writable (accepted lba List.mem_cons_self)
    have rests := ih (d := d.put lba s) writable later fun other member =>
      accepted other (List.mem_cons_of_mem _ member)
    have same : view (d.put lba s) rest = view d ((lba, s) :: rest) := by
      simp only [view, Device.put, overlay_update fresh, overlay_cons]
    simp only [writeBack, here, rests, same]

/-- A commit on a healthy device writes exactly the overlay. -/
theorem commit_ok (writable : d.writable) (staged : Staged d tx) : tx.commit m d = (view d tx, true) := by
  have verified : tx.verify m (view d tx) := by
    simp only [verify, size, BEq.rfl, Bool.true_and, List.all_eq_true]
    rintro ⟨lba, s⟩ member
    have accepted : (view d tx).accepts lba :=
      staged.accepted lba (List.mem_map_of_mem member)
    have shown : (view d tx).data lba = s := overlay_mem staged.distinct member
    simp [blockRead, accepted, shown, rawBytesEqual_self]
  simp only [commit, writeBack_ok size writable staged.distinct staged.accepted, verified]

/-- Staging a list of patches that needs at most four sectors and committing it applies the
    patches to the device. -/
theorem commit_mutateAll (writable : d.writable) (accepted : ∀ lp ∈ ps, d.accepts lp.1)
    (applies : d.Applies ps) (few : (sectors [] ps).card ≤ exfatTestTxMaxSectors) :
    ∃ tx, mutateAll m d ps [] = some tx ∧ tx.commit m d = (Device.patchAll ps d, true) := by
  obtain ⟨tx, staged, built, shown⟩ := mutateAll_ok size staged_nil accepted applies few
  exact ⟨tx, staged, by rw [commit_ok size writable built, shown, view_nil]⟩

end

/-- What `get` has checked when it succeeds. -/
theorem get_checked (staged : Staged d tx) (got : tx.get m d lba = some tx') :
    m.blockSize = 512 ∧ d.accepts lba ∧ (lba ∈ tx.lbas ∨ tx.length < exfatTestTxMaxSectors) := by
  unfold get at got
  split at got
  · cases got
  · rename_i size
    split at got
    · rename_i present
      have member := has_iff.mp present
      exact ⟨not_not.mp size, staged.accepted lba member, .inl member⟩
    · split at got
      · cases got
      · rename_i room
        obtain ⟨s, read, -⟩ := Option.map_eq_some_iff.mp got
        exact ⟨not_not.mp size, (blockRead_eq_some.mp read).1, .inr (Nat.not_le.mp room)⟩

/-- A `get` that succeeds stages a sector of the device. -/
theorem get_some (staged : Staged d tx) (got : tx.get m d lba = some tx') :
    Staged d tx' ∧ view d tx' = view d tx ∧ lba ∈ tx'.lbas ∧
      ∀ other, other ∈ tx'.lbas ↔ other = lba ∨ other ∈ tx.lbas := by
  obtain ⟨size, accepted, room⟩ := get_checked staged got
  obtain ⟨tx₁, same, staged', seen, present, grown⟩ := get_ok size staged accepted room
  cases Option.some.inj (got.symm.trans same)
  refine ⟨staged', seen, present, fun other => ?_⟩
  rw [← List.mem_toFinset, grown, Finset.mem_insert, List.mem_toFinset]

/-- A patch that was staged fits the sector as it is seen through the images. -/
theorem mutate_staged (staged : Staged d tx) (mutated : tx.mutate m d lba p = some tx') :
    Staged d tx' ∧ view d tx' = (view d tx).patch lba p ∧ (p.apply ((view d tx).data lba)).isSome ∧
      ∀ other, other ∈ tx'.lbas ↔ other = lba ∨ other ∈ tx.lbas := by
  unfold mutate at mutated
  cases got : tx.get m d lba with
  | none =>
    rw [got] at mutated
    cases mutated
  | some tx₁ =>
    obtain ⟨staged', seen, present, grown⟩ := get_some staged got
    rw [got] at mutated
    obtain ⟨s, applied, rfl⟩ := Option.map_eq_some_iff.mp mutated
    rw [sector_eq d present, seen] at applied
    refine ⟨staged'.store lba s, ?_, by rw [applied]; rfl, by rw [lbas_store]; exact grown⟩
    rw [view_store s present, seen, Device.patch, applied, Option.getD_some]

theorem mutateAll_staged (staged : Staged d tx) (mutated : mutateAll m d ps tx = some tx') :
    Staged d tx' ∧ view d tx' = Device.patchAll ps (view d tx) ∧ (view d tx).Applies ps := by
  induction ps generalizing tx with
  | nil =>
    cases mutated
    exact ⟨staged, rfl, trivial⟩
  | cons lp rest ih =>
    rw [mutateAll_cons] at mutated
    obtain ⟨tx₁, first, later⟩ := Option.bind_eq_some_iff.mp mutated
    obtain ⟨staged₁, seen₁, applied, -⟩ := mutate_staged staged first
    obtain ⟨staged', seen, applies⟩ := ih staged₁ later
    rw [seen₁] at seen applies
    exact ⟨staged', seen, applied, applies⟩

/-- Patches that were all staged, on up to four sectors as `get` requires, have the same effect as direct
    edits. Staging reads the device and gives none back, so the commit finds it as it was. -/
theorem commit_eq_patchAll {m : Mount} {d : Device} {ps : List (Nat × Patch)} {tx : Transaction}
    (size : m.blockSize = 512) (writable : d.writable = true) (mutated : mutateAll m d ps [] = some tx) :
    tx.commit m d = (Device.patchAll ps d, true) ∧ d.Applies ps ∧
      ∀ lba, (∀ lp ∈ ps, lba ≠ lp.1) → (tx.commit m d).1.data lba = d.data lba := by
  obtain ⟨staged, seen, applies⟩ := mutateAll_staged staged_nil mutated
  rw [view_nil] at seen applies
  have committed : tx.commit m d = (Device.patchAll ps d, true) := by
    rw [commit_ok size writable staged, seen]
  refine ⟨committed, applies, ?_⟩
  intro lba apart
  rw [committed]
  exact Device.patchAll_data_other apart

def entryDevice : Device where
  blockCount := 8
  bounded := by decide
  writable := true
  fault _ := false
  data _ := ⟨fun i => if i.val % exfatEntrySize = 0 then 0x85 else 0⟩

/-- Two bits of one byte, two fields of one sector and two entries. -/
def entryEdits : List (Nat × Patch) :=
  [(1, .bit 7 1 true), (2, .u32 100 77), (1, .bit 7 4 true), (3, .deleteEntries 32 2), (2, .bytes 102 [9, 9])]

theorem commit_entryEdits : ∃ tx, mutateAll { blockSize := 512 } entryDevice entryEdits [] = some tx ∧
    tx.commit { blockSize := 512 } entryDevice = (Device.patchAll entryEdits entryDevice, true) := by
  have mutated : (mutateAll { blockSize := 512 } entryDevice entryEdits []).isSome := by
    decide +kernel
  obtain ⟨tx, staged⟩ := Option.isSome_iff_exists.mp mutated
  exact ⟨tx, staged, (commit_eq_patchAll rfl rfl staged).1⟩

end Transaction

end TangPingOS
