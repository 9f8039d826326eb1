import TangPingOS.Exfat.Ownership

/-! # Allocation bits

Every cluster a writable file holds has its allocation bit set. Creates and
extensions see to it; the mount does so only as far as one byte of the bitmap
reaches, and that byte decides the matter for every later state.
-/

namespace TangPingOS

open Lib

variable {d₀ : Device} {fs : Fs} {kept : List Nat} {m : Mount} {i : Nat} {w w' : World}

/-- The bits of the clusters held are set, and no two files share one. -/
structure Marked (m : Mount) (d₀ d : Device) (cells : Nat → List Nat) : Prop where
  set : ∀ i, ∀ c ∈ cells i, bitAt d (place m d₀ c)
  apart : ∀ i j, i ≠ j → ∀ a ∈ cells i, ∀ b ∈ cells j, ¬ SamePlace (place m d₀ a) (place m d₀ b)

theorem SamePlace.symm (same : SamePlace p q) : SamePlace q p :=
  ⟨same.1.symm, same.2.1.symm, same.2.2.symm⟩

namespace Marked

variable {m : Mount} {d₀ d d' : Device} {cells : Nat → List Nat} (marked : Marked m d₀ d cells)

include marked

theorem not_samePlace (held : a ∈ cells i) (clear : bitAt d (place m d₀ b) = false) :
    ¬ SamePlace (place m d₀ a) (place m d₀ b) := by
  intro same
  have set := marked.set i a held
  rw [same.bitAt_eq, clear] at set
  cases set

theorem sameBits (same : ∀ i, ∀ c ∈ cells i, bitAt d' (place m d₀ c) = bitAt d (place m d₀ c)) :
    Marked m d₀ d' cells where
  set i c held := (same i c held).trans (marked.set i c held)
  apart := marked.apart

variable (valid : ∀ j, ∀ c ∈ cells j, exfatClusterValid m c) (begins : ∀ c ∈ kept, c ∈ cells i)

include valid begins

/-- Index `i` takes some clusters whose bits were clear, next to some that it held. -/
theorem take (free : ∀ c ∈ new, Free m d₀ d c) (bits : ∀ x, exfatClusterValid m x → bitAt d' (place m d₀ x) =
      if ∃ b ∈ new, SamePlace (place m d₀ x) (place m d₀ b) then true
      else bitAt d (place m d₀ x)) :
    Marked m d₀ d' (Function.update cells i (kept ++ new)) := by
  have still : ∀ j, ∀ c ∈ cells j, bitAt d' (place m d₀ c) := by
    intro j c held
    rw [bits c (valid j c held)]
    split
    · rfl
    · exact marked.set j c held
  have fresh : ∀ j, j ≠ i → ∀ a ∈ kept ++ new, ∀ b ∈ cells j,
      ¬ SamePlace (place m d₀ b) (place m d₀ a) := by
    intro j other a member b held
    cases List.mem_append.mp member with
    | inl old => exact marked.apart j i other b held a (begins a old)
    | inr added => exact marked.not_samePlace held (free a added).clear
  constructor
  · intro j c held
    rcases mem_update_cases held with ⟨_, mine⟩ | ⟨_, old⟩
    · cases List.mem_append.mp mine with
      | inl old => exact still i c (begins c old)
      | inr added => rw [bits c (free c added).valid, if_pos ⟨c, added, rfl, rfl, rfl⟩]
    · exact still j c old
  · intro j k other a heldA b heldB
    rcases mem_update_cases heldA with ⟨rfl, mine⟩ | ⟨notA, oldA⟩
    · rcases mem_update_cases heldB with ⟨rfl, _⟩ | ⟨notB, oldB⟩
      · exact absurd rfl other
      · exact fun same => fresh k notB a mine b oldB same.symm
    · rcases mem_update_cases heldB with ⟨rfl, mine⟩ | ⟨_, oldB⟩
      · exact fresh j notA b mine a oldA
      · exact marked.apart j k other a oldA b oldB

/-- Index `i` gives its clusters up. -/
theorem release (bits : ∀ x, exfatClusterValid m x → bitAt d' (place m d₀ x) =
      if ∃ b ∈ kept, SamePlace (place m d₀ x) (place m d₀ b) then false
      else bitAt d (place m d₀ x)) :
    Marked m d₀ d' (Function.update cells i []) := by
  have others {j c : Nat} (held : c ∈ Function.update cells i [] j) : j ≠ i ∧ c ∈ cells j :=
    (mem_update_cases held).resolve_left fun none => List.not_mem_nil none.2
  constructor
  · intro j c held
    obtain ⟨other, old⟩ := others held
    rw [bits c (valid j c old), if_neg]
    · exact marked.set j c old
    · rintro ⟨b, member, same⟩
      exact marked.apart j i other c old b (begins b member) same
  · intro j k other a heldA b heldB
    exact marked.apart j k other a (others heldA).2 b (others heldB).2

end Marked

theorem Marked.step (ground : Ground m d₀) (step : Step m d₀ w w')
    (table : Table m d₀ w.fs w.cells) (marked : Marked m d₀ w.fs.dev w.cells) : Marked m d₀ w'.fs.dev w'.cells := by
  have valid : ∀ j, ∀ c ∈ w.cells j, exfatClusterValid m c := fun _ _ => table.cell_valid
  cases step with
  | create c planned _ =>
    obtain ⟨_, _, bits⟩ := Creation.views ground table.agree planned.valid (planned.apart table ground)
      (planned.lba ground table.agree)
    have none : ∀ b ∈ ([] : List Nat), b ∈ w.cells w.fs.rootEntries.length :=
      fun _ member => absurd member List.not_mem_nil
    exact marked.take valid none planned.free bits
  | orphan c planned _ =>
    obtain ⟨_, _, bits⟩ := Creation.views ground table.agree planned.valid (planned.apart table ground)
      (planned.lba ground table.agree)
    apply marked.sameBits
    intro i b held
    rw [bits b (valid i b held), if_neg]
    rintro ⟨a, member, same⟩
    exact marked.not_samePlace held (planned.free a member).clear same
  | extend atIndex writable begins isLast found few grows =>
    obtain ⟨len, _, _, _, free⟩ := findExfatFreeClusterRun_spec ground table.agree found
    have last := begins.subset (List.mem_of_getLast? isLast)
    obtain ⟨_, _, bits⟩ := extendedDevice_views ground table.agree (table.cell_valid last)
      (fun b member => (free b member).valid) (table.cell_not_reserved ground last)
      (fun b member => table.free_not_reserved ground (free b member))
      (List.ne_nil_of_length_pos (by omega))
    exact marked.take valid (fun c member => begins.subset member) free bits
  | unlink atIndex writable begins _ =>
    have ok := table.entries _ _ atIndex writable
    obtain ⟨_, _, bits⟩ := unlinkedDevice_views ground table.agree ok.directory
      (fun b member => ok.valid b (begins.subset member))
      fun b member => table.cell_not_reserved ground (begins.subset member)
    exact marked.release valid (fun c member => begins.subset member) bits
  | data i only => exact marked.sameBits fun j c held => table.bitAt_data ground only (valid j c held)
  | resize atIndex writable _ =>
    exact marked.sameBits fun j c held =>
      table.bitAt_putEntry ground atIndex writable _ (valid j c held)
  | rename renames =>
    exact marked.sameBits fun j c held =>
      table.bitAt_putEntry ground renames.atIndex renames.writable _ (valid j c held)

theorem Marked.steps (ground : Ground m d₀) (steps : Steps m d₀ w w')
    (table : Table m d₀ w.fs w.cells) (marked : Marked m d₀ w.fs.dev w.cells) : Marked m d₀ w'.fs.dev w'.cells := by
  induction steps with
  | refl => exact marked
  | tail before last ih => exact Marked.step ground last (table.steps ground before) ih

/-- Every cluster on the chain of a writable file has its bit set on disk. -/
def ChainsMarked (m : Mount) (fs : Fs) : Prop :=
  ∀ i e, fs.Live i e → ∃ cs, e.fatChain m fs.dev = some cs ∧
    ∀ c ∈ cs, readExfatBitmapBit m fs.dev c = some true

theorem Table.chainsMarked_iff (table : Table m d₀ fs cells) (ground : Ground m d₀) :
    ChainsMarked m fs ↔ ∀ i, ∀ c ∈ cells i, bitAt fs.dev (place m d₀ c) := by
  constructor
  · intro marked i c member
    obtain ⟨e, atIndex, writable, ok⟩ := table.owner member
    obtain ⟨cs, isChain, set⟩ := marked i e ⟨atIndex, writable⟩
    rw [table.fatChain_eq ground ⟨atIndex, writable⟩, Option.some.injEq] at isChain
    have isSet := set c (isChain ▸ member)
    rw [ground.readBit table.agree (ok.valid c member), Option.some.injEq] at isSet
    exact isSet
  · intro set i e live
    refine ⟨cells i, table.fatChain_eq ground live, ?_⟩
    intro c member
    rw [ground.readBit table.agree (table.cell_valid member), set i c member]

/-- The bits of the first three free clusters are all kept by the byte that keeps the first one's. -/
def OneByte (m : Mount) (d : Device) : Prop :=
  ∀ c ∈ firstFree m d, ∃ c' ∈ firstFree m d,
    (c' - 2) / 8 = ((firstFree m d).headD 0 - 2) / 8 ∧ SamePlace (place m d c) (place m d c')

section Mount

variable {m : Mount} {d d' : Device} {entries : List RootEntry} {fs : Fs} (ground : Ground m d)
  (done : MountDone m d entries fs) (views : NewFileViews m d d')

include ground done views

theorem MountDone.oneByte_iff : OneByte m d ↔ ∀ c ∈ m.newClusters, bitAt d' (place m d c) := by
  have free := done.planned.threeFree ground
  rw [OneByte, ← (done.planned.newClusters_eq ground).1]
  constructor
  · intro together c member
    rw [views.bits c (free.valid c member), if_pos (together c member)]
  · intro set c member
    by_contra missing
    have isSet := set c member
    rw [views.bits c (free.valid c member), if_neg missing, free.clear c member] at isSet
    cases isSet

/-- Entering `NEW.TXT` in the table changes no bit. -/
theorem MountDone.bitAt_mountedFs (valid : exfatClusterValid m c) :
    bitAt (mountedFs m entries d').dev (place m d c) = bitAt d' (place m d c) := by
  unfold mountedFs
  split
  · rfl
  · exact (done.committedTable ground views).bitAt_putEntry ground (i := entries.length)
      (e := newFileEntry m) (by simp) rfl _ valid

/-- After the mount every held cluster is marked, unless one lies outside the byte. -/
theorem MountDone.marked (good : maxRootEntries ≤ entries.length ∨ OneByte m d) :
    Marked m d (mountedFs m entries d').dev (mountedCells m entries) := by
  have free := done.planned.threeFree ground
  unfold mountedCells
  split
  · exact ⟨fun _ _ member => absurd member List.not_mem_nil,
      fun _ _ _ _ member => absurd member List.not_mem_nil⟩
  · rename_i room
    have set := (done.oneByte_iff ground views).mp (good.resolve_left room)
    have single {i c : Nat} (member : c ∈ Function.update (fun _ => []) entries.length m.newClusters i) :
        i = entries.length ∧ c ∈ m.newClusters :=
      (mem_update_cases member).resolve_right fun none => List.not_mem_nil none.2
    constructor
    · intro i c member
      have new := (single member).2
      rw [done.bitAt_mountedFs ground views (free.valid c new)]
      exact set c new
    · intro i j other a memberA b memberB
      exact absurd ((single memberA).1.trans (single memberB).1.symm) other

end Mount

/-- Allocation bits in every state a run reaches: all set, exactly if the mount marked all of its
    three clusters or could not enter `NEW.TXT` in the table. -/
theorem chains_marked_iff {d : Device} {m : Mount} {fs : Fs} (start : Mounted d m fs) :
    (∀ ops, ChainsMarked m (runOps m fs ops)) ↔
      maxRootEntries ≤ (parsedEntries d).length ∨ OneByte m d := by
  have ground := start.ground
  have done := start.done
  obtain ⟨d', views, rfl⟩ := done.start ground start.ready
  have table := done.table ground views
  constructor
  · intro always
    by_contra bad
    obtain ⟨room, apart⟩ := not_or.mp bad
    have set := (table.chainsMarked_iff ground).mp (always [])
    rw [mountedCells, if_neg room] at set
    apply apart
    rw [done.oneByte_iff ground views]
    intro c member
    rw [← done.bitAt_mountedFs ground views ((done.planned.threeFree ground).valid c member)]
    exact set (parsedEntries d).length c (by rw [Function.update_self]; exact member)
  · intro good ops
    have marked := done.marked ground views good
    obtain ⟨cells, steps⟩ := runOps_reaches ground start.ready ops table
    rw [(table.steps ground steps).chainsMarked_iff ground]
    exact (Marked.steps ground steps table marked).set

theorem oneByte_of_forall
    (same : ∀ c ∈ firstFree m d, (c - 2) / 8 = ((firstFree m d).headD 0 - 2) / 8) : OneByte m d :=
  fun c member => ⟨c, member, same c member, rfl, rfl, rfl⟩

set_option maxRecDepth 100000 in
theorem plainDevice_firstFree : firstFree (blockfsMount plainDevice).1 plainDevice = [4, 5, 6] := by
  decide +kernel

theorem plainDevice_oneByte : OneByte (blockfsMount plainDevice).1 plainDevice := by
  apply oneByte_of_forall
  rw [plainDevice_firstFree]
  decide

/-- On the plain volume, whose free clusters start in the first bitmap byte, no bit is ever missing. -/
theorem chains_marked_plain :
    OneByte (blockfsMount plainDevice).1 plainDevice ∧
    ∀ ops, ChainsMarked (blockfsMount plainDevice).1
      (runOps (blockfsMount plainDevice).1 (blockfsMount plainDevice).2 ops) :=
  ⟨plainDevice_oneByte, (chains_marked_iff plainDevice_mounted).mpr (.inr plainDevice_oneByte)⟩

/-- A volume like the plain one whose first six clusters are in use: the free ones are 8, 9, 10,
    and the bit of 10 is in the second bitmap byte. -/
def scatteredDevice : Device :=
  smallDevice 1 2 16 2 0 sixteenClusters_fit
    [(1, sectorOf [(8, le32 fatEnd), (12, le32 fatEnd)]), (2, sectorOf [(0, bitmapEntryOf 3 2)]),
      (3, sectorOf [(0, [0x3f])])]

set_option maxRecDepth 100000 in
theorem scatteredDevice_mount :
    mountTest scatteredDevice ∧
    (runOps (blockfsMount scatteredDevice).1 (blockfsMount scatteredDevice).2 []).fileAt
      (blockfsMount scatteredDevice).1 0 = some (1536, [8, 9, 10]) ∧
    readExfatBitmapBit (blockfsMount scatteredDevice).1 (blockfsMount scatteredDevice).2.dev 10 =
      some false := by
  decide +kernel

theorem ChainsMarked.fileAt (marked : ChainsMarked m fs) (found : fs.fileAt m i = some (capacity, cs)) :
    ∀ c ∈ cs, readExfatBitmapBit m fs.dev c = some true := by
  obtain ⟨e, live, isChain, _⟩ := Fs.fileAt_spec found
  obtain ⟨cs', isChain', set⟩ := marked i e live
  rw [isChain, Option.some.injEq] at isChain'
  exact isChain' ▸ set

/-- On a well-formed volume `NEW.TXT` holds a cluster that the bitmap says is free. -/
theorem chains_marked_fails : ∃ d m fs, Mounted d m fs ∧ ¬ ChainsMarked m (runOps m fs []) := by
  obtain ⟨tested, file, clear⟩ := scatteredDevice_mount
  refine ⟨scatteredDevice, _, _, .of_test tested rfl, fun marked => ?_⟩
  have set := marked.fileAt file 10 (by simp)
  rw [runOps, List.foldl_nil, clear] at set
  cases set

end TangPingOS
