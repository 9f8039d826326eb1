import TangPingOS.Exfat.Files
import TangPingOS.Exfat.Layout

/-! # What the file operations do to the views

Effects of wiping clusters, of staging the links and bits of a chain and of
taking them back, and what the searches for free clusters and directory slots
guarantee. `d₀` is the device before the mount; the places of the allocation bits
are those found on it.
-/

namespace TangPingOS

open Lib

variable {d : Device} {edits : List (Nat × Nat)} {cs : List Nat} {m : Mount} {b c i : Nat} {e : Nat × Nat}
  {set : Bool} {next : Nat → Nat}

def InClusters (m : Mount) (cs : List Nat) (lba : Nat) : Prop :=
  ∃ c ∈ cs, ∃ i, i < m.sectorsPerCluster ∧ lba = heapSector m c i

theorem inClusters_iff : (∃ c ∈ cs, m.exfat.clusterHeapOffset + (c - 2) * m.sectorsPerCluster ≤ lba ∧
      lba - (m.exfat.clusterHeapOffset + (c - 2) * m.sectorsPerCluster) < m.sectorsPerCluster) ↔
    InClusters m cs lba := by
  refine exists_congr fun c => and_congr_right fun _ => ⟨fun h => ⟨_, h.2, ?_⟩, ?_⟩
  · simp only [heapSector]
    omega
  · rintro ⟨i, inside, rfl⟩
    simp only [heapSector]
    omega

instance (m : Mount) (cs : List Nat) (lba : Nat) : Decidable (InClusters m cs lba) :=
  decidable_of_iff _ inClusters_iff

def zeroClusters (m : Mount) (cs : List Nat) (d : Device) : Device :=
  { d with data := fun lba => if InClusters m cs lba then Buf.zero else d.data lba }

theorem sameShape_zeroClusters (m : Mount) (cs : List Nat) (d : Device) : d.SameShape (zeroClusters m cs d) :=
  ⟨rfl, rfl, rfl⟩

theorem zeroSectors_ok (vol : Volume m d)
    (valid : exfatClusterValid m c) (inside : k + left ≤ m.sectorsPerCluster) :
    zeroSectors m (exfatClusterLba m c) k left d =
      ({ d with data := fun lba =>
          if ∃ i, i < k + left ∧ k ≤ i ∧ lba = heapSector m c i then Buf.zero else d.data lba },
        true) := by
  induction left generalizing k d with
  | zero =>
    have none (lba : Nat) : ¬ ∃ i, i < k + 0 ∧ k ≤ i ∧ lba = heapSector m c i := by
      omega
    simp only [zeroSectors, none, if_false]
  | succ left ih =>
    have here : k < m.sectorsPerCluster := by omega
    have written := writeExfatSectorChecked_ok Buf.zero vol.blockSize vol.io.writable
      (vol.io.heap c k valid here)
    have rests := ih (vol.ofShape (d.sameShape_put (heapSector m c k) Buf.zero))
      (k := k + 1) (by omega)
    rw [zeroSectors, vol.wrap64_lba valid here, written]
    simp only [rests]
    refine congrArg (fun data => ({ d with data := data }, true)) (funext fun lba => ?_)
    by_cases first : lba = heapSector m c k
    · subst first
      rw [if_pos (⟨k, by omega, Nat.le_refl k, rfl⟩ :
        ∃ i, i < k + (left + 1) ∧ k ≤ i ∧ heapSector m c k = heapSector m c i)]
      split
      · rfl
      · exact Device.put_data_self ..
    · have same : (∃ i, i < k + 1 + left ∧ k + 1 ≤ i ∧ lba = heapSector m c i) ↔
          ∃ i, i < k + (left + 1) ∧ k ≤ i ∧ lba = heapSector m c i := by
        refine exists_congr fun i => ⟨fun h => ⟨by omega, by omega, h.2.2⟩, fun h => ?_⟩
        have later : i ≠ k := fun same => first (same ▸ h.2.2)
        exact ⟨by omega, by omega, h.2.2⟩
      simp only [same]
      split
      · rfl
      · exact Device.put_data_other first

theorem zeroExfatCluster_ok (vol : Volume m d) (valid : exfatClusterValid m c) :
    zeroExfatCluster m d c = (zeroClusters m [c] d, true) := by
  have pos := vol.sectorsPerCluster_pos
  have rests : zeroSectors m (exfatClusterLba m c) 0 m.sectorsPerCluster d = _ :=
    zeroSectors_ok vol valid (by omega)
  simp only [zeroExfatCluster, vol.exfatClusterLba_ne_max valid, Nat.ne_of_gt pos,
    rests]
  refine congrArg (fun data => ({ d with data := data }, true)) (funext fun lba => ?_)
  simp [InClusters]

theorem zeroClusters_cons : zeroClusters m cs (zeroClusters m [c] d) = zeroClusters m (c :: cs) d := by
  refine congrArg (fun data => { d with data := data }) (funext fun lba => ?_)
  have split : InClusters m (c :: cs) lba ↔ InClusters m cs lba ∨ InClusters m [c] lba := by
    simp [InClusters, or_comm]
  simp only [zeroClusters, split]
  by_cases later : InClusters m cs lba <;> simp [later]

theorem zeroExfatClusters_ok (vol : Volume m d) (valid : ∀ c ∈ cs, exfatClusterValid m c) :
    zeroExfatClusters m cs d = (zeroClusters m cs d, true) := by
  induction cs generalizing d with
  | nil =>
    have none (lba : Nat) : ¬ InClusters m [] lba := by simp [InClusters]
    simp [zeroExfatClusters, zeroClusters, none]
  | cons c rest ih =>
    have here := zeroExfatCluster_ok vol (valid c List.mem_cons_self)
    have rests := ih (vol.ofShape (sameShape_zeroClusters m [c] d))
      fun b member => valid b (List.mem_cons_of_mem c member)
    simp only [zeroExfatClusters, here, rests, zeroClusters_cons]

section

variable (vol : Volume m d) (valid : ∀ b ∈ cs, exfatClusterValid m b) (valid' : exfatClusterValid m c)

include vol valid valid'

theorem fatWord_zeroClusters : fatWord m (zeroClusters m cs d) c = fatWord m d c := by
  have outside : ¬ InClusters m cs (fatSector m c) := by
    rintro ⟨b, member, i, inside, same⟩
    exact vol.fatSector_ne_heapSector valid' (valid b member) inside same
  simp [fatWord, zeroClusters, outside]

theorem zeroClusters_data_other (inside : i < m.sectorsPerCluster) (other : c ∉ cs) :
    (zeroClusters m cs d).data (heapSector m c i) = d.data (heapSector m c i) := by
  refine if_neg ?_
  rintro ⟨b, member, j, inside', same⟩
  obtain ⟨rfl, _⟩ := vol.heapSector_inj valid' (valid b member) inside inside' same
  exact other member

end

theorem zeroClusters_data_self (member : c ∈ cs) (inside : i < m.sectorsPerCluster) :
    (zeroClusters m cs d).data (heapSector m c i) = Buf.zero :=
  if_pos ⟨c, member, i, inside, rfl⟩

/-- Where the allocation bit of a cluster lies, as found before the mount. -/
def place (m : Mount) (d₀ : Device) (c : Nat) : BitPlace :=
  (locateExfatBitmapBit m d₀ c).getD ⟨0, 0, 0⟩

def SamePlace (p q : BitPlace) : Prop := p.lba = q.lba ∧ p.offset = q.offset ∧ p.bit = q.bit

instance (p q : BitPlace) : Decidable (SamePlace p q) := by
  unfold SamePlace
  infer_instance

def editPatches (m : Mount) (d₀ : Device) (set : Bool) : List (Nat × Nat) → List (Nat × Patch)
  | [] => []
  | (c, v) :: rest => bitPatch (place m d₀ c) set :: fatPatch m c v :: editPatches m d₀ set rest

theorem patchAll_editPatches_cons (set : Bool) :
    Device.patchAll (editPatches m d₀ set ((c, v) :: rest)) d =
      Device.patchAll (editPatches m d₀ set rest)
        ((d.patch (bitPatch (place m d₀ c) set).1 (bitPatch (place m d₀ c) set).2).patch
          (fatPatch m c v).1 (fatPatch m c v).2) := by
  rw [editPatches, Device.patchAll_cons, Device.patchAll_cons]

def linkWords : List Nat → List (Nat × Nat)
  | [] => []
  | c :: rest => (c, rest.headD fatEnd) :: linkWords rest

def freeWords (cs : List Nat) : List (Nat × Nat) := cs.map fun c => (c, 0)

theorem foldl_update_congr {next' : Nat → Nat} (same : next c = next' c) :
    edits.foldl (fun f e => Function.update f e.1 e.2) next c =
      edits.foldl (fun f e => Function.update f e.1 e.2) next' c := by
  induction edits generalizing next next' with
  | nil => exact same
  | cons edit rest ih =>
    refine ih ?_
    simp only [Function.update_apply, same]

theorem foldl_update_outside (outside : c ∉ edits.map Prod.fst) :
    edits.foldl (fun f e => Function.update f e.1 e.2) next c = next c := by
  induction edits generalizing next with
  | nil => rfl
  | cons edit rest ih =>
    obtain ⟨other, later⟩ := not_or.mp (mt List.mem_cons.mpr outside)
    rw [List.foldl_cons, ih later, Function.update_of_ne other]

theorem foldl_linkWords (next : Nat → Nat) :
    (linkWords cs).foldl (fun f e => Function.update f e.1 e.2) next = linkCells fatEnd cs next := by
  induction cs generalizing next with
  | nil => rfl
  | cons c rest ih => exact ih _

theorem foldl_freeWords (next : Nat → Nat) :
    (freeWords cs).foldl (fun f e => Function.update f e.1 e.2) next = freeCells 0 cs next := by
  induction cs generalizing next with
  | nil =>
    funext a
    simp [freeWords, freeCells]
  | cons c rest ih =>
    refine (ih _).trans (funext fun a => ?_)
    by_cases here : a = c
    · simp [freeCells, here]
    · simp [freeCells, here]

theorem map_fst_linkWords (cs : List Nat) : (linkWords cs).map Prod.fst = cs := by
  induction cs with
  | nil => rfl
  | cons c rest ih => rw [linkWords, List.map_cons, ih]

theorem map_fst_freeWords (cs : List Nat) : (freeWords cs).map Prod.fst = cs := by
  simp [freeWords, Function.comp_def]

theorem mem_of_mem_linkWords (member : e ∈ linkWords cs) : e.1 ∈ cs := by
  rw [← map_fst_linkWords cs]
  exact List.mem_map_of_mem member

theorem mem_of_mem_freeWords (member : e ∈ freeWords cs) : e.1 ∈ cs := by
  rw [← map_fst_freeWords cs]
  exact List.mem_map_of_mem member

/-- A mounted volume: the device before the mount was well-formed, its directory and bitmap
    share no cluster, and three clusters are less than 2⁶⁴ bytes. -/
structure Ground (m : Mount) (d₀ : Device) : Prop where
  vol : Volume m d₀
  wellFormed : WellFormed m d₀
  apart : ∀ i j c, rootChain m d₀ i = some c → bitmapChain m d₀ j ≠ some c
  fits : 3 * m.clusterSize < 2 ^ 64

namespace Ground

variable {d₀ : Device} (ground : Ground m d₀)

include ground

theorem locate (agree : SameReserved m d₀ d)
    (valid : exfatClusterValid m c) : locateExfatBitmapBit m d c = some (place m d₀ c) := by
  obtain ⟨p, located⟩ := Option.isSome_iff_exists.mp (ground.wellFormed.bitmapCovers c valid)
  rw [agree.locate_eq ground.vol, place, located, Option.getD_some]

/-- Allocation bits lie in sectors of the bitmap's clusters. -/
theorem place_spec (valid : exfatClusterValid m c) :
    (place m d₀ c).offset < 512 ∧ (place m d₀ c).bit < 8 ∧
      ∃ i b j, bitmapChain m d₀ i = some b ∧ j < m.sectorsPerCluster ∧
        (place m d₀ c).lba = heapSector m b j := by
  have located := ground.locate ⟨.refl d₀, fun _ _ => rfl⟩ valid
  obtain ⟨inside, small, b, j, chain, within, _, _, _, lba⟩ :=
    locateExfatBitmapBit_spec ground.vol located
  exact ⟨inside, small, _, b, j, chain, within, lba⟩

theorem place_accepted (valid : exfatClusterValid m c) : d₀.accepts (place m d₀ c).lba := by
  obtain ⟨_, _, _, b, j, chain, within, lba⟩ := ground.place_spec valid
  rw [lba]
  exact ground.vol.io.heap b j (exfatResolveCluster_valid chain) within

theorem readBit (agree : SameReserved m d₀ d) (valid : exfatClusterValid m c) :
    readExfatBitmapBit m d c = some (bitAt d (place m d₀ c)) :=
  readExfatBitmapBit_eq (agree.volume ground.vol) (ground.locate agree valid)

theorem reserved_used (reserved : Reserved m d₀ c) : exfatClusterValid m c ∧ bitAt d₀ (place m d₀ c) := by
  have agree : SameReserved m d₀ d₀ := ⟨.refl d₀, fun _ _ => rfl⟩
  rcases reserved with ⟨i, chain⟩ | ⟨i, chain⟩
  · have valid := exfatResolveCluster_valid chain
    have used := ground.wellFormed.rootUsed i c chain
    rw [ground.readBit agree valid, Option.some.injEq] at used
    exact ⟨valid, used⟩
  · have valid := exfatResolveCluster_valid chain
    have used := ground.wellFormed.bitmapUsed i c chain
    rw [ground.readBit agree valid, Option.some.injEq] at used
    exact ⟨valid, used⟩

end Ground

section Chains

variable {d₀ : Device} (ground : Ground m d₀)

include ground

theorem setBit_eq (agree : SameReserved m d₀ d) (set : Bool) (valid : exfatClusterValid m c) (tx : Transaction) :
    writeExfatBitmapBitInTransaction set m d tx c =
      tx.mutate m d (bitPatch (place m d₀ c) set).1 (bitPatch (place m d₀ c) set).2 := by
  simp only [writeExfatBitmapBitInTransaction, ground.locate agree valid, bitPatch]

theorem writeFat_eq (valid : exfatClusterValid m c) (v : Nat) (tx : Transaction) :
    writeExfatFatEntryInTransaction m d tx c v =
      tx.mutate m d (fatPatch m c v).1 (fatPatch m c v).2 := by
  have covered := ground.vol.fatCovers c valid
  simp only [writeExfatFatEntryInTransaction, valid, Bool.not_true, Bool.false_eq_true, if_false,
    fatPatch, fatSector]
  rw [if_neg]
  omega

section

variable (agree : SameReserved m d₀ d) (valid : ∀ c ∈ cs, exfatClusterValid m c) (tx : Transaction)

include agree valid

/-- The staging loop of create and extend sets bits and links words. -/
theorem stageChain_eq :
    stageChain m d cs tx = Transaction.mutateAll m d (editPatches m d₀ true (linkWords cs)) tx := by
  induction cs generalizing tx with
  | nil => rfl
  | cons c rest ih =>
    have here := valid c List.mem_cons_self
    have marked := setBit_eq ground agree true here tx
    rw [stageChain, setExfatBitmapBitInTransaction, marked, linkWords, editPatches,
      Transaction.mutateAll_cons]
    refine congrArg (Option.bind _) (funext fun tx' => ?_)
    have written := writeFat_eq ground (d := d) here (rest.headD fatEnd) tx'
    rw [written, Transaction.mutateAll_cons]
    exact congrArg (Option.bind _) (funext fun tx'' =>
      ih (fun b member => valid b (List.mem_cons_of_mem c member)) tx'')

theorem stageRelease_eq :
    stageRelease m d cs tx = Transaction.mutateAll m d (editPatches m d₀ false (freeWords cs)) tx := by
  induction cs generalizing tx with
  | nil => rfl
  | cons c rest ih =>
    have here := valid c List.mem_cons_self
    have marked := setBit_eq ground agree false here tx
    rw [stageRelease, clearExfatBitmapBitInTransaction, marked, freeWords, List.map_cons,
      editPatches, Transaction.mutateAll_cons]
    refine congrArg (Option.bind _) (funext fun tx' => ?_)
    have written := writeFat_eq ground (d := d) here 0 tx'
    rw [written, Transaction.mutateAll_cons]
    exact congrArg (Option.bind _) (funext fun tx'' =>
      ih (fun b member => valid b (List.mem_cons_of_mem c member)) tx'')

end

theorem editPatches_accepted (agree : SameReserved m d₀ d) (set : Bool)
    (valid : ∀ e ∈ edits, exfatClusterValid m e.1) :
    ∀ lp ∈ editPatches m d₀ set edits, d.accepts lp.1 := by
  induction edits with
  | nil => simp [editPatches]
  | cons edit rest ih =>
    have here := valid edit List.mem_cons_self
    simp only [editPatches, List.mem_cons]
    rintro lp (rfl | rfl | later)
    · exact agree.shape.accepts.trans (ground.place_accepted here)
    · exact agree.shape.accepts.trans (ground.vol.io.fat _ here)
    · exact ih (fun e member => valid e (List.mem_cons_of_mem _ member)) lp later

theorem editPatches_applies (d : Device) (valid : ∀ e ∈ edits, exfatClusterValid m e.1) :
    d.Applies (editPatches m d₀ set edits) := by
  induction edits generalizing d with
  | nil => trivial
  | cons edit rest ih =>
    obtain ⟨inside, _⟩ := ground.place_spec (valid edit List.mem_cons_self)
    exact ⟨bitPatch_applies inside, fatPatch_applies m,
      ih _ fun e member => valid e (List.mem_cons_of_mem _ member)⟩

theorem fatWord_patch_bit (vol : Volume m d) (valid : exfatClusterValid m b)
    (covered : c * 4 / 512 < m.exfat.fatLength) :
    fatWord m (d.patch (bitPatch (place m d₀ b) set).1 (bitPatch (place m d₀ b) set).2) c =
      fatWord m d c := by
  obtain ⟨_, _, _, k, j, chain, within, lba⟩ := ground.place_spec valid
  simp only [bitPatch, lba]
  exact fatWord_put_heap vol covered (exfatResolveCluster_valid chain) within

private theorem fatWord_edit (vol : Volume m d) (set : Bool) {v : Nat} (valid : exfatClusterValid m b)
    (small : v < 2 ^ 32) (covered : c * 4 / 512 < m.exfat.fatLength) :
    fatWord m ((d.patch (bitPatch (place m d₀ b) set).1 (bitPatch (place m d₀ b) set).2).patch
        (fatPatch m b v).1 (fatPatch m b v).2) c =
      Function.update (fatWord m d) b v c := by
  rw [fatWord_patch_fat, fatWord_patch_bit ground vol valid covered, Nat.mod_eq_of_lt small,
    Function.update_apply]

theorem fatWord_editPatches (vol : Volume m d) (valid : ∀ e ∈ edits, exfatClusterValid m e.1)
    (small : ∀ e ∈ edits, e.2 < 2 ^ 32) (covered : c * 4 / 512 < m.exfat.fatLength) :
    fatWord m (Device.patchAll (editPatches m d₀ set edits) d) c =
      edits.foldl (fun next e => Function.update next e.1 e.2) (fatWord m d) c := by
  induction edits generalizing d with
  | nil => rw [editPatches, Device.patchAll, List.foldl_nil]
  | cons edit rest ih =>
    obtain ⟨b, v⟩ := edit
    have here := valid (b, v) List.mem_cons_self
    have smallHere : v < 2 ^ 32 := small (b, v) List.mem_cons_self
    have shape := (d.sameShape_patch (bitPatch (place m d₀ b) set).1
      (bitPatch (place m d₀ b) set).2).trans
        (Device.sameShape_patch _ (fatPatch m b v).1 (fatPatch m b v).2)
    rw [patchAll_editPatches_cons,
      ih (vol.ofShape shape) (fun e member => valid e (List.mem_cons_of_mem _ member))
        (fun e member => small e (List.mem_cons_of_mem _ member))]
    exact foldl_update_congr (fatWord_edit ground vol set here smallHere covered)

theorem bitAt_editPatches_place (valid : ∀ e ∈ edits, exfatClusterValid m e.1)
    (small' : q.bit < 8) (outside : ∀ b, exfatClusterValid m b → q.lba ≠ fatSector m b) :
    bitAt (Device.patchAll (editPatches m d₀ set edits) d) q =
      if ∃ e ∈ edits, SamePlace q (place m d₀ e.1) then set else bitAt d q := by
  induction edits generalizing d with
  | nil => simp [editPatches, Device.patchAll]
  | cons edit rest ih =>
    obtain ⟨b, v⟩ := edit
    have here := valid (b, v) List.mem_cons_self
    obtain ⟨inside, small, _⟩ := ground.place_spec here
    have later := fun e member => valid e (List.mem_cons_of_mem (b, v) member)
    rw [patchAll_editPatches_cons, ih later]
    have step : bitAt ((d.patch (bitPatch (place m d₀ b) set).1
        (bitPatch (place m d₀ b) set).2).patch (fatPatch m b v).1 (fatPatch m b v).2) q =
        if SamePlace q (place m d₀ b) then set else bitAt d q := by
      have offFat : q.lba ≠ (fatPatch m b v).1 := outside b here
      rw [bitAt, Device.patch_data_other _ offFat]
      exact bitAt_patch_bit inside small small'
    rw [step]
    by_cases there : ∃ e ∈ rest, SamePlace q (place m d₀ e.1)
    · rw [if_pos there, if_pos]
      obtain ⟨e, member, same⟩ := there
      exact ⟨e, List.mem_cons_of_mem _ member, same⟩
    · rw [if_neg there]
      refine if_congr ⟨fun same => ⟨(b, v), List.mem_cons_self, same⟩, ?_⟩ rfl rfl
      rintro ⟨e, member, same⟩
      rcases List.mem_cons.mp member with rfl | inRest
      · exact same
      · exact absurd ⟨e, inRest, same⟩ there

theorem bitAt_editPatches (vol : Volume m d) (valid : ∀ e ∈ edits, exfatClusterValid m e.1)
    (valid' : exfatClusterValid m c) :
    bitAt (Device.patchAll (editPatches m d₀ set edits) d) (place m d₀ c) =
      if ∃ e ∈ edits, SamePlace (place m d₀ c) (place m d₀ e.1) then set
      else bitAt d (place m d₀ c) := by
  obtain ⟨_, small', _, k, j, chain, within, lba⟩ := ground.place_spec valid'
  apply bitAt_editPatches_place ground valid small'
  intro b here
  rw [lba]
  exact (vol.fatSector_ne_heapSector here (exfatResolveCluster_valid chain) within).symm

/-- An edit leaves every heap sector outside the bitmap's clusters. -/
theorem editPatches_data_other (vol : Volume m d) (valid : ∀ e ∈ edits, exfatClusterValid m e.1)
    (valid' : exfatClusterValid m c) (inside : i < m.sectorsPerCluster)
    (outside : ∀ j, bitmapChain m d₀ j ≠ some c) :
    (Device.patchAll (editPatches m d₀ set edits) d).data (heapSector m c i) =
      d.data (heapSector m c i) := by
  refine Device.patchAll_data_other ?_
  induction edits with
  | nil => simp [editPatches]
  | cons edit rest ih =>
    have here := valid edit List.mem_cons_self
    obtain ⟨_, _, k, b, j, chain, within, lba⟩ := ground.place_spec here
    simp only [editPatches, List.mem_cons]
    rintro lp (rfl | rfl | later)
    · intro same
      have valids := exfatResolveCluster_valid chain
      obtain ⟨rfl, _⟩ := vol.heapSector_inj valid' valids inside within (same.trans lba)
      exact outside k chain
    · exact Ne.symm (vol.fatSector_ne_heapSector here valid' inside)
    · exact ih (fun e member => valid e (List.mem_cons_of_mem edit member)) lp later

end Chains

end TangPingOS
