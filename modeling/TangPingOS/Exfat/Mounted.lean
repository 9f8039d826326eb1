import TangPingOS.Exfat.Entries
import TangPingOS.Exfat.Plan
import TangPingOS.Exfat.Steps

/-! # What a mount leaves

The state after a mount whose commit went through: the sectors it wrote, seen as
FAT words, allocation bits and directory bytes, the entry of `NEW.TXT`, and that
the table invariant holds in it.
-/

namespace TangPingOS

open Lib

variable {d : Device} {fs : Fs} {edits : List (Nat × Nat)} {entries : List RootEntry} {m : Mount}

/-! ## Views of the planned device -/

theorem bitSet_plannedMask (small : bit < 8) :
    bitSet (plannedMask byteIndex cs) bit =
      decide (∃ c ∈ cs, (c - 2) / 8 = byteIndex ∧ (c - 2) % 8 = bit) := by
  have fold (mask : UInt8) :
      bitSet (cs.foldl (fun mask c => if (c - 2) / 8 = byteIndex then
          mask ||| UInt8.ofNat (2 ^ ((c - 2) % 8)) else mask) mask) bit =
        (bitSet mask bit || decide (∃ c ∈ cs, (c - 2) / 8 = byteIndex ∧ (c - 2) % 8 = bit)) := by
    induction cs generalizing mask with
    | nil => simp
    | cons c rest ih =>
      rw [List.foldl_cons, ih]
      by_cases inByte : (c - 2) / 8 = byteIndex
      · rw [if_pos inByte, bitSet_or (Nat.mod_lt _ (by omega)) small]
        by_cases isBit : (c - 2) % 8 = bit
        · simp [inByte, isBit]
        · simp [isBit, Ne.symm isBit]
      · simp [inByte]
  have none : bitSet 0 bit = false := by simp [bitSet]
  rw [plannedMask, fold, none, Bool.false_or]

theorem Device.put_self (d : Device) : d.put lba (d.data lba) = d := by
  simp [Device.put]

theorem Device.put_put : (d.put lba s).put lba s' = d.put lba s' := by
  simp [Device.put]

def fatPatches (m : Mount) : List (Nat × Nat) → List (Nat × Patch)
  | [] => []
  | (c, v) :: rest => fatPatch m c v :: fatPatches m rest

/-- FAT words of one sector patched in memory and written once, or one by one. -/
theorem patchFatWords_eq (inSector : ∀ e ∈ edits, fatSector m e.1 = lba) :
    ∃ s, patchFatWords (edits.map fun e => (e.1 * 4 % 512, e.2)) (d.data lba) = some s ∧
      d.put lba s = Device.patchAll (fatPatches m edits) d := by
  induction edits generalizing d with
  | nil => exact ⟨d.data lba, rfl, d.put_self⟩
  | cons edit rest ih =>
    obtain ⟨c, v⟩ := edit
    have here : fatSector m c = lba := inSector (c, v) List.mem_cons_self
    have inside : c * 4 % 512 + 4 ≤ 512 := by omega
    have patched : d.patch (fatPatch m c v).1 (fatPatch m c v).2 =
        d.put lba ((d.data lba).write (c * 4 % 512) (le32 v)) := by
      simp only [fatPatch, here, Device.patch]
      rw [u32_apply inside, Option.getD_some]
    obtain ⟨s, rests, same⟩ := ih (d := d.patch (fatPatch m c v).1 (fatPatch m c v).2)
      fun e member => inSector e (List.mem_cons_of_mem _ member)
    rw [patched, Device.put_data_self] at rests
    rw [patched, Device.put_put] at same
    refine ⟨s, ?_, ?_⟩
    · rw [List.map_cons, patchFatWords, if_neg (Nat.not_lt.mpr inside)]
      exact rests
    · rw [fatPatches, Device.patchAll_cons, patched]
      exact same

private theorem fatWord_patch_word (m : Mount) (d : Device) {b v : Nat} (small : v < 2 ^ 32)
    (c : Nat) : fatWord m (d.patch (fatPatch m b v).1 (fatPatch m b v).2) c =
      Function.update (fatWord m d) b v c := by
  rw [fatWord_patch_fat, Nat.mod_eq_of_lt small, Function.update_apply]

theorem fatWord_fatPatches (m : Mount) (small : ∀ e ∈ edits, e.2 < 2 ^ 32) (c : Nat) :
    fatWord m (Device.patchAll (fatPatches m edits) d) c =
      edits.foldl (fun next e => Function.update next e.1 e.2) (fatWord m d) c := by
  induction edits generalizing d with
  | nil => rw [fatPatches, Device.patchAll, List.foldl_nil]
  | cons edit rest ih =>
    obtain ⟨b, v⟩ := edit
    have smallHere : v < 2 ^ 32 := small (b, v) List.mem_cons_self
    rw [fatPatches, Device.patchAll_cons,
      ih fun e member => small e (List.mem_cons_of_mem _ member)]
    exact foldl_update_congr (fatWord_patch_word m d smallHere c)

/-- The clusters the mount gave to `NEW.TXT`. -/
abbrev Mount.newClusters (m : Mount) : List Nat := m.exfat.allocationPlan.clusters

/-- A mounted volume, from what is said about the device before the mount. -/
theorem MountDone.ground (done : MountDone m d entries fs) (wellFormed : WellFormed m d) (io : IoSucceeds m d)
    (apart : ∀ i j c, rootChain m d i = some c → bitmapChain m d j ≠ some c)
    (fits : 3 * m.clusterSize < 2 ^ 64) : Ground m d where
  vol :=
    { geometry := wellFormed.geometry
      blockSize := done.plan.blockSize
      counted := by
        have geometry := wellFormed.geometry
        simp only [exfatGeometryValid, Bool.and_eq_true, decide_eq_true_eq] at geometry
        have high := geometry.2
        have small := done.counted
        simp only [Mount.clusterEnd] at high ⊢
        omega
      sized := clusterSize_eq done.plan.sized
      fatCovers := wellFormed.fatCovers
      fatOutsideHeap := wellFormed.fatOutsideHeap
      heapInside := wellFormed.heapInside
      io := io }
  wellFormed := wellFormed
  apart := apart
  fits := fits

def firstFree (m : Mount) (d : Device) : List Nat := (freeClusters m d m.exfat.clusterCount).take 3

/-- The plan of the mount holds three clusters that were free. -/
structure ThreeFree (m : Mount) (d : Device) : Prop where
  three : m.newClusters.length = 3
  distinct : m.newClusters.Nodup
  valid : ∀ c ∈ m.newClusters, exfatClusterValid m c
  clear : ∀ c ∈ m.newClusters, bitAt d (place m d c) = false

/-- What the mount's commit has changed, sector by sector. -/
structure NewFileViews (m : Mount) (d d' : Device) : Prop where
  shape : d.SameShape d'
  fat : ∀ x, exfatClusterValid m x →
    fatWord m d' x = linkCells fatEnd m.newClusters (fatWord m d) x
  /-- Only the bits in the byte of the first cluster are set. -/
  bits : ∀ x, exfatClusterValid m x →
    bitAt d' (place m d x) =
      if ∃ c ∈ m.newClusters, (c - 2) / 8 = (m.newClusters.headD 0 - 2) / 8 ∧
          SamePlace (place m d x) (place m d c) then true
      else bitAt d (place m d x)
  directory : d'.data m.exfat.transaction.directoryLba =
    (d.data m.exfat.transaction.directoryLba).write m.exfat.transaction.directoryByteOffset
      (m.exfat.createPlan.entries.slice 0 96)
  other : ∀ c i, exfatClusterValid m c → i < m.sectorsPerCluster →
    heapSector m c i ≠ m.exfat.transaction.directoryLba → (∀ j, bitmapChain m d j ≠ some c) →
    d'.data (heapSector m c i) = d.data (heapSector m c i)

/-- A complete plan whose directory slots lie in one sector. -/
structure MountPlan (m : Mount) (d : Device) : Prop where
  plan : PlanMade m d
  transaction : TransactionMade m d m.exfat.transaction
  fits : m.exfat.transaction.directoryByteOffset + 96 ≤ 512

theorem MountDone.planned
    (done : MountDone m d entries fs) : MountPlan m d := ⟨done.plan, done.transaction, done.fits⟩

namespace MountPlan

variable {m : Mount} {d : Device} (ground : Ground m d) (planned : MountPlan m d)

include ground planned

/-- The plan is the first three clusters whose bit is clear. -/
theorem newClusters_eq : m.newClusters = firstFree m d ∧ m.newClusters.length = 3 := by
  obtain ⟨st, ran, clusters, long⟩ := planned.plan.scan
  obtain ⟨within, plan⟩ := scan_plan ground.vol ground.wellFormed.bitmapCovers ran
  have isTaken : m.newClusters = (freeClusters m d st.bitIndex).take 3 := clusters.trans plan
  rw [← clusters] at long
  have short : m.newClusters.length ≤ 3 := by
    rw [isTaken]
    exact List.length_take_le 3 _
  have three := Nat.le_antisymm short long
  have enough : 3 ≤ (freeClusters m d st.bitIndex).length := by
    rw [isTaken, List.length_take] at three
    omega
  obtain ⟨more, whole⟩ := freeClusters_prefix m d within
  refine ⟨?_, three⟩
  rw [isTaken, firstFree, ← whole, List.take_append_of_le_length enough]

theorem threeFree : ThreeFree m d := by
  obtain ⟨isTaken, three⟩ := planned.newClusters_eq ground
  have member {c : Nat} (here : c ∈ m.newClusters) := mem_freeClusters
    (List.mem_of_mem_take (isTaken ▸ here : c ∈ firstFree m d))
  refine ⟨three, ?_, fun c here => ?_, fun c here => (member here).2.2⟩
  · rw [isTaken]
    exact nodup_freeClusters.sublist (List.take_sublist 3 _)
  · obtain ⟨low, high, _⟩ := member here
    exact ground.vol.valid_iff.mpr ⟨low, by omega⟩

theorem slot : ∃ r, RootSlot m d r ∧ m.exfat.transaction.directoryLba = r.lba ∧
    m.exfat.transaction.directoryByteOffset = r.slot * 32 := by
  obtain ⟨r, found, isLba, isSlot⟩ := planned.plan.slot
  have isOffset := planned.transaction.directoryOffset
  rw [isSlot] at isOffset
  have fits := planned.fits
  refine ⟨r, (searchRootDirectorySlots_spec ground.vol found).resolve_right (by omega), ?_, isOffset⟩
  rw [planned.transaction.directory, isLba]

theorem head_mem : m.newClusters.headD 0 ∈ m.newClusters := by
  have three := (planned.threeFree ground).three
  cases clusters : m.newClusters with
  | nil => simp [clusters] at three
  | cons c rest => simp

/-- The planned bitmap byte is the one that holds the bit of the first cluster. -/
theorem bitmapPlace :
    m.exfat.transaction.bitmapLba = (place m d (m.newClusters.headD 0)).lba ∧
      m.exfat.transaction.bitmapByteOffset = (place m d (m.newClusters.headD 0)).offset := by
  have valid := (planned.threeFree ground).valid _ (planned.head_mem ground)
  obtain ⟨_, _, b, j, chain, inside, column, offset, _, lba⟩ :=
    locateExfatBitmapBit_spec ground.vol (ground.locate ⟨.refl d, fun _ _ => rfl⟩ valid)
  obtain ⟨b', chain', lba'⟩ := planned.transaction.bitmap
  rw [chain, Option.some.injEq] at chain'
  subst chain'
  refine ⟨?_, planned.transaction.bitmapOffset.trans offset.symm⟩
  rw [lba', ← column, ground.vol.wrap64_lba (exfatResolveCluster_valid chain) inside, lba]

theorem apart : m.exfat.transaction.bitmapLba ≠ m.exfat.transaction.fatLba ∧
    m.exfat.transaction.bitmapLba ≠ m.exfat.transaction.directoryLba ∧
    m.exfat.transaction.fatLba ≠ m.exfat.transaction.directoryLba := by
  have vol := ground.vol
  have valid := (planned.threeFree ground).valid _ (planned.head_mem ground)
  have isFat := planned.transaction.fat _ (planned.head_mem ground)
  obtain ⟨isBitmap, -⟩ := planned.bitmapPlace ground
  obtain ⟨-, -, k, b, j, chain, inside, bitmapLba⟩ := ground.place_spec valid
  obtain ⟨r, ⟨i, b', j', rootIn, rootInside, foundAt⟩, isDirectory, -⟩ := planned.slot ground
  have validB := exfatResolveCluster_valid chain
  have validRoot := exfatResolveCluster_valid rootIn
  rw [isBitmap, bitmapLba, ← isFat, isDirectory, foundAt.lba]
  refine ⟨(vol.fatSector_ne_heapSector valid validB inside).symm, fun same => ?_,
    vol.fatSector_ne_heapSector valid validRoot rootInside⟩
  obtain ⟨rfl, -⟩ := vol.heapSector_inj validB validRoot inside rootInside same
  exact ground.apart i k _ rootIn chain

end MountPlan

section Views

variable {m : Mount} {d : Device} {entries : List RootEntry} {fs : Fs} (ground : Ground m d)
  (done : MountDone m d entries fs)

include ground done

theorem bitAt_patchBitmap (valid : exfatClusterValid m x) :
    bitAt (d.put m.exfat.transaction.bitmapLba
        (m.exfat.transaction.patchBitmap (d.data m.exfat.transaction.bitmapLba))) (place m d x) =
      if ∃ c ∈ m.newClusters, (c - 2) / 8 = (m.newClusters.headD 0 - 2) / 8 ∧
          SamePlace (place m d x) (place m d c) then true
      else bitAt d (place m d x) := by
  obtain ⟨isLba, isOffset⟩ := done.planned.bitmapPlace ground
  have free := done.planned.threeFree ground
  have agree : SameReserved m d d := ⟨.refl d, fun _ _ => rfl⟩
  obtain ⟨_, small, _⟩ := ground.place_spec valid
  obtain ⟨insideFirst, _⟩ := ground.place_spec (free.valid _ (done.planned.head_mem ground))
  -- Clusters of one bitmap byte differ in the bit only.
  have sameByte {c : Nat} (member : c ∈ m.newClusters)
      (same : (c - 2) / 8 = (m.newClusters.headD 0 - 2) / 8) :
      (place m d c).lba = (place m d (m.newClusters.headD 0)).lba ∧
        (place m d c).offset = (place m d (m.newClusters.headD 0)).offset ∧
        (place m d c).bit = (c - 2) % 8 := by
    have validC := free.valid c member
    have validFirst := free.valid _ (done.planned.head_mem ground)
    obtain ⟨_, _, _, _, _, _, _, offset, isBit, _⟩ :=
      locateExfatBitmapBit_spec ground.vol (ground.locate agree validC)
    obtain ⟨_, _, _, _, _, _, _, offset', _, _⟩ :=
      locateExfatBitmapBit_spec ground.vol (ground.locate agree validFirst)
    refine ⟨place_lba_eq ground validC validFirst (by omega), ?_, isBit⟩
    rw [offset, offset', same]
  rw [bitAt, TransactionPlan.patchBitmap, done.transaction.bitmapValue, isLba, isOffset]
  by_cases sameLba : (place m d x).lba = (place m d (m.newClusters.headD 0)).lba
  · rw [sameLba, Device.put_data_self]
    by_cases sameOffset : (place m d x).offset = (place m d (m.newClusters.headD 0)).offset
    · rw [sameOffset, Buf.get_set_self insideFirst, bitSet_union small, bitSet_plannedMask small]
      have oldBit : bitSet ((d.data (place m d (m.newClusters.headD 0)).lba).get
          (place m d (m.newClusters.headD 0)).offset) (place m d x).bit = bitAt d (place m d x) := by
        rw [bitAt, sameLba, sameOffset]
      rw [oldBit]
      by_cases planned : ∃ c ∈ m.newClusters, (c - 2) / 8 = (m.newClusters.headD 0 - 2) / 8 ∧
          SamePlace (place m d x) (place m d c)
      · rw [if_pos planned, Bool.or_eq_true, decide_eq_true_eq]
        obtain ⟨c, member, inByte, same⟩ := planned
        exact .inr ⟨c, member, inByte, (sameByte member inByte).2.2.symm.trans same.2.2.symm⟩
      · rw [if_neg planned, decide_eq_false, Bool.or_false]
        rintro ⟨c, member, inByte, isBit⟩
        obtain ⟨lba, offset, bit⟩ := sameByte member inByte
        exact planned ⟨c, member, inByte, sameLba.trans lba.symm, sameOffset.trans offset.symm,
          isBit.symm.trans bit.symm⟩
    · rw [Buf.get_set_other sameOffset, if_neg, bitAt, sameLba]
      rintro ⟨c, member, inByte, same⟩
      exact sameOffset (same.2.1.trans (sameByte member inByte).2.1)
  · rw [Device.put_data_other sameLba, if_neg, bitAt]
    rintro ⟨c, member, inByte, same⟩
    exact sameLba (same.1.trans (sameByte member inByte).1)

/-- The planned device, seen through its FAT, its bits and its directory. -/
theorem MountDone.views (planned : planDevice m.exfat.transaction m.exfat.createPlan.entries d = some d') :
    NewFileViews m d d' := by
  have vol := ground.vol
  have free := done.planned.threeFree ground
  obtain ⟨isLba, _⟩ := done.planned.bitmapPlace ground
  obtain ⟨_, _, k, b, j, chain, inside, bitmapLba⟩ :=
    ground.place_spec (free.valid _ (done.planned.head_mem ground))
  obtain ⟨r, ⟨i, rootCluster, rootSector, rootIn, rootInside, foundAt⟩, isDirectory, _⟩ :=
    done.planned.slot ground
  have dirLba := isDirectory.trans foundAt.lba
  have validRoot := exfatResolveCluster_valid rootIn
  have inSector : ∀ e ∈ linkWords m.newClusters, fatSector m e.1 = m.exfat.transaction.fatLba :=
    fun e member => done.transaction.fat e.1 (mem_of_mem_linkWords member)
  -- The three writes: the bitmap byte, the FAT words, the directory bytes.
  simp only [planDevice] at planned
  have bits₁ := fun x valid => bitAt_patchBitmap ground done (x := x) valid
  generalize isBitmap : d.put m.exfat.transaction.bitmapLba
    (m.exfat.transaction.patchBitmap (d.data m.exfat.transaction.bitmapLba)) = d₁ at planned bits₁
  have shape₁ : d.SameShape d₁ := isBitmap ▸ d.sameShape_put _ _
  have data₁ {lba : Nat} (other : lba ≠ heapSector m b j) : d₁.data lba = d.data lba := by
    rw [← isBitmap, isLba, bitmapLba]
    exact Device.put_data_other other
  obtain ⟨fatImage, patched, isFat⟩ := patchFatWords_eq (d := d₁) inSector
  rw [done.transaction.words, patched, Option.map_some, Option.some.injEq, isFat] at planned
  have fat₂ := fatWord_fatPatches m (d := d₁) (fatWord_fits free.valid)
  have shape₂ := shape₁.trans (Device.sameShape_patchAll (fatPatches m (linkWords m.newClusters)) d₁)
  have data₂ {c i : Nat} (valid : exfatClusterValid m c) (within : i < m.sectorsPerCluster) :
      (Device.patchAll (fatPatches m (linkWords m.newClusters)) d₁).data (heapSector m c i) =
        d₁.data (heapSector m c i) := by
    rw [← isFat]
    refine Device.put_data_other fun same => ?_
    have sector := done.transaction.fat _ (done.planned.head_mem ground)
    exact vol.fatSector_ne_heapSector (free.valid _ (done.planned.head_mem ground)) valid within
      (sector.trans same.symm)
  generalize Device.patchAll (fatPatches m (linkWords m.newClusters)) d₁ = d₂ at planned fat₂ shape₂ data₂
  have vol₂ := vol.ofShape shape₂
  rw [dirLba] at planned
  subst planned
  refine ⟨shape₂.trans (d₂.sameShape_put _ _), fun x valid => ?_, fun x valid => ?_, ?_, ?_⟩
  · rw [fatWord_put_heap vol₂ (vol.fatCovers x valid) validRoot rootInside, fat₂, ← foldl_linkWords]
    refine foldl_update_congr ?_
    rw [← isBitmap, isLba, bitmapLba]
    exact fatWord_put_heap vol (vol.fatCovers x valid) (exfatResolveCluster_valid chain) inside
  · rw [← bits₁ x valid]
    refine bitAt_congr ground valid fun i' b' j' chain' within' => ?_
    have validB := exfatResolveCluster_valid chain'
    rw [Device.put_data_other fun same => ?_, data₂ validB within']
    obtain ⟨rfl, _⟩ := vol.heapSector_inj validB validRoot within' rootInside same
    exact ground.apart i i' _ rootIn chain'
  · have apart : heapSector m rootCluster rootSector ≠ heapSector m b j := fun same => by
      obtain ⟨rfl, _⟩ := vol.heapSector_inj validRoot (exfatResolveCluster_valid chain) rootInside
        inside same
      exact ground.apart i k _ rootIn chain
    rw [dirLba, Device.put_data_self, TransactionPlan.patchDirectory, data₂ validRoot rootInside,
      data₁ apart]
  · intro c n valid within notDirectory outside
    rw [dirLba] at notDirectory
    rw [Device.put_data_other notDirectory, data₂ valid within]
    refine data₁ fun same => ?_
    obtain ⟨rfl, _⟩ := vol.heapSector_inj valid (exfatResolveCluster_valid chain) within inside same
    exact outside k chain

end Views

/-! ## The state after the mount -/

/-- The table entry of `NEW.TXT`. -/
def newFileEntry (m : Mount) : RootEntry :=
  { parent := rootPath
    name := newTxt
    capacity := 3 * m.clusterSize
    directoryLba := m.exfat.transaction.directoryLba
    directoryByteOffset := m.exfat.transaction.directoryByteOffset
    firstCluster := m.newClusters.headD 0
    attributes := 0x20
    writable := true }

/-- The file system after the mount: `NEW.TXT` is entered if the table has room. -/
def mountedFs (m : Mount) (entries : List RootEntry) (d' : Device) : Fs :=
  if maxRootEntries ≤ entries.length then ⟨entries, d'⟩
  else
    ⟨entries ++ [newFileEntry m], d'.put m.exfat.transaction.directoryLba
      (resizedEntrySet (d'.data m.exfat.transaction.directoryLba)
        m.exfat.transaction.directoryByteOffset 0)⟩

section Start

variable {m : Mount} {d d' : Device} {entries : List RootEntry} {fs : Fs} (ground : Ground m d)
  (done : MountDone m d entries fs) (views : NewFileViews m d d')

include ground done

theorem MountDone.entryOk : EntryOk m d (newFileEntry m) m.newClusters := by
  have free := done.planned.threeFree ground
  obtain ⟨r, ⟨i, b, j, chain, inside, foundAt⟩, isLba, isOffset⟩ := done.planned.slot ground
  exact
    { first := by
        have three := free.three
        cases clusters : m.newClusters with
        | nil => simp [clusters] at three
        | cons c rest => simp [newFileEntry, clusters]
      few := Nat.le_of_eq free.three
      capacity := by rw [free.three]; rfl
      size := Nat.zero_le _
      valid := free.valid
      unused := free.clear
      flags := rfl
      parent := rfl
      file := rfl
      directory := ⟨i, b, j, chain, inside, isLba.trans foundAt.lba⟩
      offset := done.fits
      slot := by simp [newFileEntry, isOffset] }

/-- The set the mount's commit wrote still says that the file is full. -/
theorem MountDone.setAt (views : NewFileViews m d d') :
    SetAt (d'.data m.exfat.transaction.directoryLba) m.exfat.transaction.directoryByteOffset newTxt
      (m.newClusters.headD 0) (3 * m.clusterSize) := by
  have valid := (done.planned.threeFree ground).valid _ (done.planned.head_mem ground)
  have small : m.newClusters.headD 0 < 2 ^ 32 := by
    obtain ⟨_, _, below⟩ := exfatClusterValid_iff.mp valid
    have bounded : m.clusterEnd < 2 ^ 32 := Nat.mod_lt _ (by norm_num)
    omega
  have bytes : wrap64 (m.clusterSize * 3) = 3 * m.clusterSize := by
    rw [Nat.mul_comm, wrap64, Nat.mod_eq_of_lt ground.fits]
  rw [views.directory, done.plan.entries, bytes]
  exact (setAt_encodeExfatFileEntries small ground.fits).write _ done.fits

include views

theorem MountDone.agree : SameReserved m d d' := by
  refine ⟨views.shape, fun c reserved => ?_⟩
  obtain ⟨valid, used⟩ := ground.reserved_used reserved
  rw [views.fat c valid]
  refine linkCells_outside fun member => ?_
  rw [(done.planned.threeFree ground).clear c member] at used
  cases used

theorem MountDone.enterNewFile_eq (ready : m.exfat.commit.ready) :
    enterNewFile m entries d' = mountedFs m entries d' := by
  have bytes : wrap64 (m.clusterSize * 3) = 3 * m.clusterSize := by
    rw [Nat.mul_comm, wrap64, Nat.mod_eq_of_lt ground.fits]
  have ok := done.entryOk ground
  have set := done.setAt ground views
  have refreshed := refreshExfatTestFileSize_eq ground (done.agree ground views) ok ready rfl 0
  rw [if_neg (by
    rintro (none | mark | mark)
    · exact absurd none (Nat.not_lt_zero _)
    · exact mark set.fileMark
    · exact mark set.streamMark)] at refreshed
  by_cases full : maxRootEntries ≤ entries.length
  · simp [enterNewFile, mountedFs, addExfatRootEntry, full]
  · have added : addExfatRootEntry entries rootPath newTxt 0 m.exfat.createPlan.firstCluster 0x20 0 =
        some { parent := rootPath
               name := newTxt
               firstCluster := m.newClusters.headD 0
               attributes := 0x20 } := by
      rw [done.plan.firstCluster]
      simp [addExfatRootEntry, full, newTxt, copyLimited, rootPath]
    rw [enterNewFile, added, mountedFs, if_neg full]
    simp only [done.plan.fileSize, bytes]
    rw [newFileEntry] at refreshed
    simp only [refreshed]
    rfl

omit ground done views in
theorem owns_nothing (next : Nat → Nat) (stop : Nat) : Owns next stop fun _ : Nat => [] :=
  ⟨fun _ => trivial, fun _ => List.nodup_nil, fun _ _ _ _ member => absurd member List.not_mem_nil⟩

omit ground done in
theorem NewFileViews.used {c : Nat} (valid : exfatClusterValid m c)
    (before : bitAt d (place m d c)) : bitAt d' (place m d c) := by
  rw [views.bits c valid]
  split
  · rfl
  · exact before

theorem MountDone.fullTable : Table m d ⟨entries, d'⟩ fun _ => [] where
  agree := done.agree ground views
  used _ valid before := views.used valid before
  owns := owns_nothing _ _
  entries i e found writable := by
    have never := done.readOnly e (List.mem_of_getElem? found)
    rw [writable] at never
    cases never
  idle _ _ := rfl

theorem MountDone.committedTable :
    Table m d ⟨entries ++ [newFileEntry m], d'⟩
      (Function.update (fun _ => []) entries.length m.newClusters) where
  agree := done.agree ground views
  used _ valid before := views.used valid before
  owns := by
    have free := done.planned.threeFree ground
    have linked := (owns_nothing (fatWord m d) fatEnd).link entries.length free.distinct
      fun _ _ _ => List.not_mem_nil
    refine linked.congr fun i c member => views.fat c (free.valid c ?_)
    rcases mem_update_cases member with ⟨_, new⟩ | ⟨_, none⟩
    · exact new
    · cases none
  entries i e found writable := by
    rcases getElem?_append_cases found with ⟨rfl, rfl⟩ | ⟨_, old⟩
    · rw [Function.update_self]
      exact done.entryOk ground
    · have never := done.readOnly e (List.mem_of_getElem? old)
      rw [writable] at never
      cases never
  idle i none := by
    refine Function.update_of_ne (fun here => ?_) _ _
    have refused := none (newFileEntry m) (by simp [here])
    cases refused

def mountedCells (m : Mount) (entries : List RootEntry) : Nat → List Nat :=
  if maxRootEntries ≤ entries.length then fun _ => []
  else Function.update (fun _ => []) entries.length m.newClusters

theorem MountDone.table : Table m d (mountedFs m entries d') (mountedCells m entries) := by
  by_cases full : maxRootEntries ≤ entries.length
  · rw [mountedFs, mountedCells, if_pos full, if_pos full]
    exact done.fullTable ground views
  · rw [mountedFs, mountedCells, if_neg full, if_neg full]
    have atIndex : (entries ++ [newFileEntry m])[entries.length]? = some (newFileEntry m) := by simp
    have same : (entries ++ [newFileEntry m]).set entries.length (newFileEntry m) =
        entries ++ [newFileEntry m] := by simp
    have ok := (done.committedTable ground views).entries _ _ atIndex rfl
    have resized := (done.committedTable ground views).putEntry ground atIndex rfl
      (resizedEntrySet (d'.data m.exfat.transaction.directoryLba)
        m.exfat.transaction.directoryByteOffset 0) rfl ok
    rw [same] at resized
    exact resized

end Start

theorem MountDone.start (done : MountDone m d entries fs) (ground : Ground m d) (ready : m.exfat.commit.ready) :
    ∃ d', NewFileViews m d d' ∧ fs = mountedFs m entries d' := by
  obtain ⟨d', planned, isFs⟩ := done.entered
  have views := done.views ground planned
  exact ⟨d', views, isFs.trans (done.enterNewFile_eq ground views ready)⟩

end TangPingOS
