import TangPingOS.Exfat.Outcomes

/-! # The bytes of a file

Where the bytes of a file lie, and what the copy loop of a write does to them. A
chain is followed link by link, and a link of `0xfffffff8` or more reads as its end
even where the volume has a cluster of that number.
-/

namespace TangPingOS

open Lib

variable {data : Bytes} {d : Device} {cs : List Nat} {m : Mount} {fuel k lba n offset pos written : Nat}

/-- Sector `n` of a file with the clusters `cs`. -/
def fileSector (m : Mount) (cs : List Nat) (n : Nat) : Nat :=
  heapSector m (cs.getD (n / m.sectorsPerCluster) 0) (n % m.sectorsPerCluster)

/-- Byte `pos` of a file with the clusters `cs`. -/
def fileByte (m : Mount) (cs : List Nat) (d : Device) (pos : Nat) : UInt8 :=
  (d.data (fileSector m cs (pos / 512))).get (pos % 512)

section Chain

variable (vol : Volume m d) {c : Nat} {rest : List Nat} (linked : Linked (fatWord m d) fatEnd (c :: rest))
  (valid : ∀ b ∈ c :: rest, exfatClusterValid m b)

include vol linked valid

theorem followFatChain_getD (followable : ∀ b ∈ rest, b < 0xfffffff8)
    (inside : k ≤ rest.length) : followFatChain m d c k = some ((c :: rest).getD k 0) := by
  induction k generalizing c rest with
  | zero => rfl
  | succ k ih =>
    cases rest with
    | nil => simp at inside
    | cons b rest =>
      have low : b < 0xfffffff8 := followable b List.mem_cons_self
      have next := valid b (by simp)
      rw [followFatChain_succ vol (valid c List.mem_cons_self), linked.1, List.headD_cons, next,
        decide_eq_false (Nat.not_le.mpr low), Bool.not_true, Bool.or_self]
      exact ih linked.2 (fun a member => valid a (List.mem_cons_of_mem c member))
        (fun a member => followable a (List.mem_cons_of_mem b member)) (Nat.le_of_succ_le_succ inside)

theorem followFatChain_low (found : followFatChain m d c k = some c') : ∀ b ∈ rest.take k, b < 0xfffffff8 := by
  induction k generalizing c rest with
  | zero => simp
  | succ k ih =>
    cases rest with
    | nil => simp
    | cons b rest =>
      rw [followFatChain_succ vol (valid c List.mem_cons_self), linked.1] at found
      split at found
      · cases found
      · rename_i goes
        simp only [Bool.or_eq_true, decide_eq_true_eq, not_or, Nat.not_le] at goes
        intro a member
        cases member with
        | head => exact goes.1
        | tail _ later =>
          exact ih linked.2 (fun x inside => valid x (List.mem_cons_of_mem c inside)) found a later

end Chain

section Positions

variable (vol : Volume m d)

include vol

theorem Volume.clusterIndex : pos / m.clusterSize = pos / 512 / m.sectorsPerCluster := by
  rw [vol.sized, Nat.mul_comm, Nat.div_div_eq_div_mul]

theorem Volume.sectorIndex : pos % m.clusterSize / 512 = pos / 512 % m.sectorsPerCluster := by
  rw [vol.sized, Nat.mul_comm, Nat.mod_mul_right_div_self]

theorem Volume.sectorOffset : pos % m.clusterSize % 512 = pos % 512 := by
  rw [vol.sized, Nat.mod_mul_left_mod]

theorem Volume.sector_lt (inside : pos < n * m.clusterSize) : pos / 512 < n * m.sectorsPerCluster := by
  rw [vol.sized, ← Nat.mul_assoc] at inside
  exact Nat.div_lt_of_lt_mul (by rw [Nat.mul_comm]; exact inside)

/-- Different sectors of a file are different sectors of the volume. -/
theorem Volume.fileSector_inj (valid : ∀ c ∈ cs, exfatClusterValid m c)
    (distinct : cs.Nodup) (inside : n < cs.length * m.sectorsPerCluster)
    (inside' : n' < cs.length * m.sectorsPerCluster) (same : fileSector m cs n = fileSector m cs n') :
    n = n' := by
  have pos := vol.sectorsPerCluster_pos
  have low := Nat.div_lt_of_lt_mul (Nat.mul_comm _ _ ▸ inside)
  have low' := Nat.div_lt_of_lt_mul (Nat.mul_comm _ _ ▸ inside')
  unfold fileSector at same
  rw [List.getD_eq_getElem _ _ low, List.getD_eq_getElem _ _ low'] at same
  obtain ⟨cluster, column⟩ := vol.heapSector_inj (valid _ (List.getElem_mem low))
    (valid _ (List.getElem_mem low')) (Nat.mod_lt _ pos) (Nat.mod_lt _ pos) same
  have row := (distinct.getElem_inj_iff).mp cluster
  rw [← Nat.div_add_mod n m.sectorsPerCluster, ← Nat.div_add_mod n' m.sectorsPerCluster, row, column]

theorem Volume.fileSector_mem (inside : n < cs.length * m.sectorsPerCluster) :
    InClusters m cs (fileSector m cs n) := by
  have low := Nat.div_lt_of_lt_mul (Nat.mul_comm _ _ ▸ inside)
  refine ⟨cs.getD (n / m.sectorsPerCluster) 0, ?_, _, Nat.mod_lt _ vol.sectorsPerCluster_pos, rfl⟩
  rw [List.getD_eq_getElem _ _ low]
  exact List.getElem_mem low

end Positions

section File

variable {d₀ : Device} (vol : Volume m d) {e : RootEntry} (ok : EntryOk m d₀ e cs)
  (linked : Linked (fatWord m d) fatEnd cs)

include vol ok linked

theorem exfatResolveCluster_getD (followable : Followable cs) (inside : k < cs.length) :
    exfatResolveCluster m d e.firstCluster e.streamFlags k = some (cs.getD k 0) := by
  have first := ok.first
  have valids := ok.valid
  obtain ⟨rest, rfl⟩ := List.head?_eq_some_iff.mp first
  rw [ok.flags, exfatResolveCluster_zero_flags, if_pos (valids _ List.mem_cons_self)]
  exact followFatChain_getD vol linked valids followable (Nat.le_of_lt_succ inside)

theorem exfatFileSector_eq (followable : Followable cs) (inside : pos < cs.length * m.clusterSize) :
    exfatFileSector m d e pos = some (fileSector m cs (pos / 512)) := by
  have low := vol.sector_lt inside
  have pos' := vol.sectorsPerCluster_pos
  have row := Nat.div_lt_of_lt_mul (Nat.mul_comm _ _ ▸ low)
  have column : pos / 512 % m.sectorsPerCluster < m.sectorsPerCluster := Nat.mod_lt _ pos'
  have valid : exfatClusterValid m (cs.getD (pos / 512 / m.sectorsPerCluster) 0) := by
    rw [List.getD_eq_getElem _ _ row]
    exact ok.valid _ (List.getElem_mem row)
  rw [exfatFileSector, vol.clusterIndex, exfatResolveCluster_getD vol ok linked followable row,
    Option.bind_some, vol.sectorIndex]
  simp only [vol.exfatClusterLba_ne_max valid, Nat.not_le.mpr column]
  rw [vol.wrap64_lba valid column]
  rfl

/-- A position the code finds a sector for has been reached along proper links. -/
theorem exfatFileSector_low (found : exfatFileSector m d e pos = some lba) :
    ∀ b ∈ cs.tail.take (pos / m.clusterSize), b < 0xfffffff8 := by
  obtain ⟨c', resolved, -⟩ := Option.bind_eq_some_iff.mp found
  have first := ok.first
  have valids := ok.valid
  obtain ⟨rest, rfl⟩ := List.head?_eq_some_iff.mp first
  rw [ok.flags, exfatResolveCluster_zero_flags, if_pos (valids _ List.mem_cons_self)] at resolved
  exact followFatChain_low vol linked valids resolved

end File

/-- One round: `src` is copied into the sector of position `at_`. -/
theorem fileByte_put (vol : Volume m d) (valid : ∀ c ∈ cs, exfatClusterValid m c) (distinct : cs.Nodup)
    (inside : at_ < cs.length * m.clusterSize)
    (inside' : pos < cs.length * m.clusterSize) (fits : at_ % 512 + src.length ≤ 512) :
    fileByte m cs (d.put (fileSector m cs (at_ / 512))
        ((d.data (fileSector m cs (at_ / 512))).write (at_ % 512) src)) pos =
      if at_ ≤ pos ∧ pos < at_ + src.length then src.getD (pos - at_) 0 else fileByte m cs d pos := by
  unfold fileByte
  by_cases sameSector : pos / 512 = at_ / 512
  · rw [sameSector, Device.put_data_self, Buf.get_write]
    by_cases here : at_ ≤ pos ∧ pos < at_ + src.length
    · rw [if_pos (by omega), if_pos here]
      congr 1
      omega
    · rw [if_neg (by omega), if_neg here]
  · have apart : fileSector m cs (pos / 512) ≠ fileSector m cs (at_ / 512) := fun same =>
      sameSector (vol.fileSector_inj valid distinct (vol.sector_lt inside') (vol.sector_lt inside) same)
    rw [Device.put_data_other apart, if_neg (by omega)]

theorem DataOnly.put (mine : InClusters m cs lba) (s : Sector) : DataOnly m cs d (d.put lba s) := by
  refine ⟨d.sameShape_put lba s, fun other outside => Device.put_data_other ?_⟩
  rintro rfl
  exact outside mine

theorem DataOnly.trans (first : DataOnly m cs d d') (second : DataOnly m cs d' d'') : DataOnly m cs d d'' :=
  ⟨first.shape.trans second.shape, fun lba outside =>
    (second.outside lba outside).trans (first.outside lba outside)⟩

def chunk (offset written : Nat) (data : Bytes) : Bytes :=
  (data.drop written).take (min (data.length - written) (512 - (offset + written) % 512))

theorem length_chunk (offset written : Nat) (data : Bytes) :
    (chunk offset written data).length = min (data.length - written) (512 - (offset + written) % 512) := by
  simp [chunk]

theorem getD_chunk (inside : i < (chunk offset written data).length) :
    (chunk offset written data).getD i 0 = data.getD (written + i) 0 := by
  rw [length_chunk] at inside
  simp only [chunk, List.getD_eq_getElem?_getD, List.getElem?_take, List.getElem?_drop]
  rw [if_pos inside]

theorem writeFrom_succ (vol : Volume m d) (more : written < data.length)
    (found : exfatFileSector m d e (offset + written) = some lba) (accepted : d.accepts lba) :
    writeFrom m e offset data (fuel + 1) written d =
      writeFrom m e offset data fuel (written + (chunk offset written data).length)
        (d.put lba ((d.data lba).write ((offset + written) % 512) (chunk offset written data))) := by
  rw [writeFrom, if_pos more, length_chunk]
  simp only [vol.sectorOffset, found, blockRead, accepted,
    writeExfatSectorChecked_ok _ vol.blockSize vol.io.writable accepted]
  rfl

section Write

variable {d₀ : Device} {e : RootEntry} (ok : EntryOk m d₀ e cs)

include ok

/-- The loop writes the data and nothing else, as far as the chain can be followed. -/
theorem writeFrom_ok (distinct : cs.Nodup) (followable : Followable cs)
    (fits : offset + data.length ≤ cs.length * m.clusterSize)
    (vol : Volume m d) (linked : Linked (fatWord m d) fatEnd cs) (enough : data.length ≤ written + fuel) :
    ∃ d', writeFrom m e offset data fuel written d = (d', true) ∧ DataOnly m cs d d' ∧
      ∀ pos < cs.length * m.clusterSize, fileByte m cs d' pos =
        if offset + written ≤ pos ∧ pos < offset + data.length then data.getD (pos - offset) 0
        else fileByte m cs d pos := by
  induction fuel generalizing written d with
  | zero =>
    refine ⟨d, rfl, .refl m cs d, fun pos inside => ?_⟩
    rw [if_neg (by omega)]
  | succ fuel ih =>
    by_cases more : written < data.length
    · have inside : offset + written < cs.length * m.clusterSize := by omega
      have found := exfatFileSector_eq vol ok linked followable inside
      have mine := vol.fileSector_mem (vol.sector_lt inside)
      have accepted : d.accepts (fileSector m cs ((offset + written) / 512)) := by
        obtain ⟨c, member, i, within, isSector⟩ := mine
        rw [isSector]
        exact vol.io.heap c i (ok.valid c member) within
      have size := length_chunk offset written data
      rw [writeFrom_succ vol more found accepted]
      have only : DataOnly m cs d _ := .put mine
        ((d.data (fileSector m cs ((offset + written) / 512))).write ((offset + written) % 512)
          (chunk offset written data))
      obtain ⟨d', ran, only', bytes⟩ := @ih _ (written + (chunk offset written data).length)
        (vol.ofShape only.shape)
        (linked.congr fun c member => only.fatWord vol ok.valid (ok.valid c member)) (by omega)
      refine ⟨d', ran, only.trans only', fun pos low => ?_⟩
      rw [bytes pos low, fileByte_put vol ok.valid distinct inside low (by omega)]
      by_cases later : offset + (written + (chunk offset written data).length) ≤ pos ∧
          pos < offset + data.length
      · rw [if_pos later, if_pos (by omega)]
      · rw [if_neg later]
        by_cases now : offset + written ≤ pos ∧ pos < offset + written + (chunk offset written data).length
        · rw [if_pos now, if_pos (by omega), getD_chunk (by omega)]
          congr 1
          omega
        · rw [if_neg now, if_neg (by omega)]
    · refine ⟨d, by rw [writeFrom, if_neg more], .refl m cs d, fun pos inside => ?_⟩
      rw [if_neg (by omega)]

/-- A loop that runs to its end has reached every position along proper links. -/
theorem writeFrom_low
    (vol : Volume m d) (linked : Linked (fatWord m d) fatEnd cs) (enough : data.length ≤ written + fuel)
    (done : (writeFrom m e offset data fuel written d).2) (low : offset + written ≤ pos)
    (high : pos < offset + data.length) : ∀ b ∈ cs.tail.take (pos / m.clusterSize), b < 0xfffffff8 := by
  induction fuel generalizing written d with
  | zero => omega
  | succ fuel ih =>
    have more : written < data.length := by omega
    cases found : exfatFileSector m d e (offset + written) with
    | none =>
      rw [writeFrom, if_pos more] at done
      simp [found] at done
    | some lba =>
      have mine := exfatFileSector_mem vol ok linked found
      have accepted : d.accepts lba := by
        obtain ⟨c, member, i, within, isSector⟩ := mine
        rw [isSector]
        exact vol.io.heap c i (ok.valid c member) within
      have size := length_chunk offset written data
      rw [writeFrom_succ vol more found accepted] at done
      have only : DataOnly m cs d _ := .put mine
        ((d.data lba).write ((offset + written) % 512) (chunk offset written data))
      by_cases now : pos < offset + (written + (chunk offset written data).length)
      · -- The position lies in the sector of this round.
        have same : pos / m.clusterSize = (offset + written) / m.clusterSize := by
          rw [vol.clusterIndex, vol.clusterIndex]
          congr 1
          omega
        rw [same]
        exact exfatFileSector_low vol ok linked found
      · exact ih (vol.ofShape only.shape)
          (linked.congr fun c member => only.fatWord vol ok.valid (ok.valid c member)) (by omega) done
          (by omega)

end Write

end TangPingOS
