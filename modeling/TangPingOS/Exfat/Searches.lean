import TangPingOS.Exfat.Effects
import TangPingOS.Lib.FirstMatch

/-! # What the searches find

The search for a run of free clusters, the search for three free directory slots
and the walk that collects the chain of a file.
-/

namespace TangPingOS

open Lib

variable {seenDot : Bool} {done name path rest : Bytes} {d d₀ : Device} {cs : List Nat} {m : Mount}
  {baseLen extLen i lba left requested : Nat} {s : Sector} {r : SlotRun}

theorem exfatTestNameCharValid_printable (valid : exfatTestNameCharValid c) : 32 ≤ c ∧ c < 127 ∧ c ≠ 0x2f := by
  simp only [exfatTestNameCharValid, Bool.or_eq_true, Bool.and_eq_true, decide_eq_true_eq, beq_iff_eq,
    UInt8.le_iff_toNat_le] at valid
  simp only [UInt8.le_iff_toNat_le, UInt8.lt_iff_toNat_lt, ne_eq]
  simp only [← UInt8.toNat_inj, UInt8.reduceToNat] at valid ⊢
  omega

theorem shortNameFrom_spec (parsed : shortNameFrom rest done baseLen extLen seenDot = some name)
    (short : done.length ≤ 15) (plain : ∀ c ∈ done, 32 ≤ c ∧ c < 127 ∧ c ≠ 0x2f) :
    name = done ++ rest ∧ name.length ≤ 15 ∧ ∀ c ∈ name, 32 ≤ c ∧ c < 127 ∧ c ≠ 0x2f := by
  induction rest generalizing done baseLen extLen seenDot with
  | nil =>
    simp only [shortNameFrom] at parsed
    split at parsed
    · cases parsed
    · rw [Option.some.injEq] at parsed
      subst parsed
      exact ⟨by simp, short, plain⟩
  | cons c rest ih =>
    have step {b x : Nat} {dot : Bool} (good : 32 ≤ c ∧ c < 127 ∧ c ≠ 0x2f)
        (room : ¬ (64 ≤ done.length + 1 ∨ 15 ≤ done.length))
        (later : shortNameFrom rest (done ++ [c]) b x dot = some name) :
        name = done ++ c :: rest ∧ name.length ≤ 15 ∧ ∀ c ∈ name, 32 ≤ c ∧ c < 127 ∧ c ≠ 0x2f := by
      have whole := ih later (by rw [List.length_append, List.length_singleton]; omega) (by
        intro a member
        rcases List.mem_append.mp member with old | new
        · exact plain a old
        · rw [List.mem_singleton.mp new]
          exact good)
      rwa [List.append_assoc] at whole
    simp only [shortNameFrom] at parsed
    split at parsed
    · cases parsed
    split at parsed
    · cases parsed
    rename_i room
    split at parsed
    · rename_i isDot
      split at parsed
      · cases parsed
      · exact step (by subst isDot; decide) room parsed
    split at parsed
    · cases parsed
    rename_i charOk
    have good := exfatTestNameCharValid_printable (c := c) (by simpa using charOk)
    split at parsed
    · split at parsed
      · cases parsed
      · exact step good room parsed
    · split at parsed
      · cases parsed
      · exact step good room parsed

theorem shortNameFrom_nonempty (parsed : shortNameFrom rest done baseLen extLen seenDot = some name)
    (counted : baseLen ≤ done.length) : name ≠ [] := by
  induction rest generalizing done baseLen extLen seenDot with
  | nil =>
    simp only [shortNameFrom] at parsed
    split at parsed
    · cases parsed
    · rw [Option.some.injEq] at parsed
      subst parsed
      intro empty
      rw [empty, List.length_nil] at counted
      omega
  | cons c rest ih =>
    simp only [shortNameFrom] at parsed
    repeat' split at parsed
    all_goals first
      | cases parsed
      | exact ih parsed (by rw [List.length_append, List.length_singleton]; omega)

/-- A path accepted as a short name is a slash and the name. -/
theorem parseExfatTestShortName_spec (parsed : parseExfatTestShortName path = some name) :
    path = 0x2f :: name ∧ name ≠ [] ∧ name.length ≤ 15 ∧
      ∀ c ∈ name, 32 ≤ c ∧ c < 127 ∧ c ≠ 0x2f := by
  unfold parseExfatTestShortName at parsed
  split at parsed
  · obtain ⟨same, short, plain⟩ := shortNameFrom_spec parsed (by simp) (by simp)
    rw [List.nil_append] at same
    exact ⟨by rw [same], shortNameFrom_nonempty parsed (by simp), short, plain⟩
  · cases parsed

/-- Characters that are no slash leave the last slash where it is. -/
theorem lastSlash_skip (noSlash : 0x2f ∉ rest) (k slash : Nat) :
    (rest.zipIdx k).foldl (fun slash ci => if 1 ≤ ci.2 ∧ ci.1 = 0x2f then ci.2 else slash) slash = slash := by
  induction rest generalizing k with
  | nil => rfl
  | cons c rest ih =>
    rw [List.mem_cons, not_or] at noSlash
    simp only [List.zipIdx_cons, List.foldl_cons, Ne.symm noSlash.1, and_false]
    exact ih noSlash.2 (k + 1)

/-- The last slash is the one in front of the name; the first character does not count. -/
theorem lastSlash_eq (plain : 0x2f ∉ name) (dir : Bytes) : lastSlash (dir ++ 0x2f :: name) = dir.length := by
  rw [lastSlash, List.zipIdx_append, List.foldl_append, List.zipIdx_cons, List.foldl_cons,
    lastSlash_skip plain]
  cases dir with
  | nil => rfl
  | cons c dir => simp

theorem splitPath_short (parsed : parseExfatTestShortName path = some name) :
    splitPath path = some (rootPath, name) := by
  obtain ⟨rfl, present, short, plain⟩ := parseExfatTestShortName_spec parsed
  have whole : copyLimited 64 name = name := List.take_of_length_le (by omega)
  have last : lastSlash (0x2f :: name) = 0 := lastSlash_eq (fun member => (plain _ member).2.2 rfl) []
  simp [splitPath, last, whole, present]

/-- Entry `i` of the table is the one that a lookup of the name finds. -/
abbrev Named (entries : List RootEntry) (parent name : Bytes) : Nat → RootEntry → Prop :=
  FirstMatch (fun e => e.parent == parent && e.name == name) entries

theorem findExfatRootEntry_eq_some :
    findExfatRootEntry entries path = some i ↔
      ∃ parent name, splitPath path = some (parent, name) ∧ ∃ e, Named entries parent name i e := by
  rw [findExfatRootEntry]
  cases split : splitPath path with
  | none => simp
  | some parts =>
    obtain ⟨parent, name⟩ := parts
    simp only [findIdx?_eq_some_iff_firstMatch, Option.some.injEq, Prod.mk.injEq]
    constructor
    · intro found
      exact ⟨parent, name, ⟨rfl, rfl⟩, found⟩
    · rintro ⟨parent, name, ⟨rfl, rfl⟩, found⟩
      exact found

/-- What `find_exfat_free_cluster_run_for_test` asks of a cluster. -/
structure Free (m : Mount) (d₀ d : Device) (c : Nat) : Prop where
  valid : exfatClusterValid m c
  clear : bitAt d (place m d₀ c) = false
  unlinked : fatWord m d c = 0

theorem freeRunFrom_row (row : run = List.range' (cluster - run.length) run.length) (back : run.length ≤ cluster)
    (short : run.length < requested) (found : freeRunFrom m d requested cluster left run = some cs) :
    ∃ first, cs = List.range' first requested := by
  induction left generalizing cluster run with
  | zero => cases found
  | succ left ih =>
    obtain ⟨used, -, found⟩ := Option.bind_eq_some_iff.mp found
    split at found
    · have grown : run ++ [cluster] = List.range' (cluster - run.length) (run.length + 1) := by
        rw [List.range'_concat, ← row]
        simp only [List.append_cancel_left_eq, List.cons.injEq, and_true]
        omega
      rw [List.length_append, List.length_singleton] at found
      split at found
      · cases found
        refine ⟨cluster - run.length, ?_⟩
        rw [grown]
        congr 1
        omega
      · refine ih ?_ ?_ ?_ found
        · rw [List.length_append, List.length_singleton, grown]
          congr 1
          omega
        · rw [List.length_append, List.length_singleton]
          omega
        · rw [List.length_append, List.length_singleton]
          omega
    · exact ih (by simp) (by simp) (by simp; omega) found

theorem findExfatFreeClusterRun_row (found : findExfatFreeClusterRun m d requested = some cs) :
    ∃ first, requested ≤ 3 ∧ cs = List.range' first requested := by
  simp only [findExfatFreeClusterRun] at found
  split at found
  · cases found
  · rename_i bounds
    obtain ⟨some_, few⟩ := not_or.mp bounds
    obtain ⟨first, row⟩ := freeRunFrom_row (by simp) (by simp) (by simp; omega) found
    exact ⟨first, Nat.not_lt.mp few, row⟩

theorem freeRunFrom_free (ground : Ground m d₀) (agree : SameReserved m d₀ d)
    (valid : ∀ k, cluster ≤ k → k < cluster + left → exfatClusterValid m k)
    (free : ∀ c ∈ run, Free m d₀ d c) (found : freeRunFrom m d requested cluster left run = some cs) :
    ∀ c ∈ cs, Free m d₀ d c := by
  induction left generalizing cluster run with
  | zero => cases found
  | succ left ih =>
    have here := valid cluster (Nat.le_refl _) (by omega)
    have later : ∀ k, cluster + 1 ≤ k → k < cluster + 1 + left → exfatClusterValid m k :=
      fun k low high => valid k (by omega) (by omega)
    simp only [freeRunFrom, ground.readBit agree here,
      (agree.volume ground.vol).exfatReadFatEntry_eq here, Option.bind_eq_bind,
      Option.bind_some] at found
    split at found
    · rename_i isFree
      simp only [Bool.and_eq_true, Bool.not_eq_true', beq_iff_eq, Option.some.injEq] at isFree
      have freeAll : ∀ c ∈ run ++ [cluster], Free m d₀ d c := by
        intro c member
        rcases List.mem_append.mp member with old | new
        · exact free c old
        · rw [List.mem_singleton.mp new]
          exact ⟨here, isFree.1, isFree.2⟩
      split at found
      · cases found
        exact freeAll
      · exact ih later freeAll found
    · exact ih later (by simp) found

/-- A run that is found is one of consecutive free clusters. -/
theorem findExfatFreeClusterRun_spec (ground : Ground m d₀) (agree : SameReserved m d₀ d)
    (found : findExfatFreeClusterRun m d requested = some cs) :
    cs.length = requested ∧ 0 < requested ∧ requested ≤ 3 ∧
      (∃ first, cs = List.range' first requested) ∧ ∀ c ∈ cs, Free m d₀ d c := by
  obtain ⟨first, few, rfl⟩ := findExfatFreeClusterRun_row found
  simp only [findExfatFreeClusterRun] at found
  split at found
  · cases found
  · have valid : ∀ k, 2 ≤ k → k < 2 + (m.clusterEnd - 2) → exfatClusterValid m k := by
      intro k low high
      exact exfatClusterValid_iff.mpr ⟨ground.vol.geometry, low, by omega⟩
    exact ⟨List.length_range', by omega, few, ⟨first, rfl⟩, freeRunFrom_free ground agree valid (by simp) found⟩

/-- Slots `z`, `z + 1` and `z + 2` of a sector are free. -/
def FreeTriple (s : Sector) (z : Nat) : Prop :=
  exfatDirectorySlotFree s z ∧ exfatDirectorySlotFree s (z + 1) ∧
    exfatDirectorySlotFree s (z + 2)

/-- The scan before `slot`: a run of fewer than three free slots that either began in this
    sector and reaches up to here, or began at the end of an earlier one. -/
structure SlotInv (s : Sector) (lba slot : Nat) (r : SlotRun) : Prop where
  short : r.run < 3
  began : 0 < r.run → (r.lba = lba ∧ r.slot + r.run = slot ∧
    ∀ k, r.slot ≤ k → k < slot → exfatDirectorySlotFree s k) ∨ 14 ≤ r.slot
  trailing : ∀ z ≤ slot, (∀ k, z ≤ k → k < slot → exfatDirectorySlotFree s k) →
    slot - z ≤ r.run
  noTriple : ∀ z, z + 3 ≤ slot → ¬ FreeTriple s z

/-- The first free triple of a sector. -/
structure FoundAt (s : Sector) (lba : Nat) (r : SlotRun) : Prop where
  lba : r.lba = lba
  inside : r.slot + 3 ≤ 16
  triple : FreeTriple s r.slot
  first : ∀ z < r.slot, ¬ FreeTriple s z

def ScanOutcome (s : Sector) (lba stop : Nat) : SlotSearch → Prop
  | .found r => FoundAt s lba r ∨ 14 ≤ r.slot
  | .exhausted r => SlotInv s lba stop r
  | .failed _ => False

theorem scanSlots_spec (here : SlotRun) (inv : SlotInv s here.lba slot r) (inside : slot + left = 16) :
    ScanOutcome s here.lba 16 (scanSlots s here slot left r) := by
  induction left generalizing slot r with
  | zero =>
    have stop : slot = 16 := by omega
    exact stop ▸ inv
  | succ left ih =>
    simp only [scanSlots]
    by_cases isFree : exfatDirectorySlotFree s slot
    · rw [if_pos isFree]
      have began' : (r.grow { here with slot := slot }).lba = here.lba ∧
          (r.grow { here with slot := slot }).slot + (r.grow { here with slot := slot }).run = slot + 1 ∧
          (∀ k, (r.grow { here with slot := slot }).slot ≤ k → k < slot + 1 →
            exfatDirectorySlotFree s k) ∨ 14 ≤ (r.grow { here with slot := slot }).slot := by
        simp only [SlotRun.grow]
        split
        · refine .inl ⟨rfl, rfl, fun k low high => ?_⟩
          have same : k = slot := by
            simp only at low
            omega
          exact same ▸ isFree
        · rcases inv.began (by omega) with ⟨atLba, reach, free⟩ | early
          · refine .inl ⟨atLba, by simp only; omega, fun k low high => ?_⟩
            by_cases same : k = slot
            · exact same ▸ isFree
            · exact free k low (by omega)
          · exact .inr early
      have run' : (r.grow { here with slot := slot }).run = r.run + 1 := by
        simp only [SlotRun.grow]
        split
        · rename_i none
          simp only [none]
        · rfl
      split
      · rcases began' with ⟨atLba, reach, free⟩ | early
        · refine .inl ⟨atLba, by omega, ⟨free _ (by omega) (by omega), free _ (by omega) (by omega),
            free _ (by omega) (by omega)⟩, fun z before => inv.noTriple z (by omega)⟩
        · exact .inr early
      · refine ih ⟨by omega, fun _ => began', fun z low free => ?_, fun z low triple => ?_⟩ (by omega)
        · by_cases start : z = slot + 1
          · omega
          · have before := inv.trailing z (by omega) fun k lowk highk => free k lowk (by omega)
            omega
        · by_cases ends : z + 3 ≤ slot
          · exact inv.noTriple z ends triple
          · have before := inv.trailing z (by omega) fun k lowk highk => by
              obtain rfl | rfl : k = z ∨ k = z + 1 := by omega
              · exact triple.1
              · exact triple.2.1
            omega
    · rw [if_neg isFree]
      refine ih ⟨by simp, by simp, fun z low free => ?_, fun z low triple => ?_⟩ (by omega)
      · by_cases start : z = slot + 1
        · omega
        · exact absurd (free slot (by omega) (by omega)) isFree
      · by_cases ends : z + 3 ≤ slot
        · exact inv.noTriple z ends triple
        · have atEnd : z + 2 = slot := by omega
          exact isFree (atEnd ▸ triple.2.2)

/-- What a successful search of the root directory yields: the first free triple of one of
    its sectors, unless the run it found begins in the last two slots of a sector. -/
def RootSlot (m : Mount) (d : Device) (r : SlotRun) : Prop :=
  ∃ i b j, rootChain m d i = some b ∧ j < m.sectorsPerCluster ∧
    FoundAt (d.data (heapSector m b j)) (heapSector m b j) r

def Carried (r : SlotRun) : Prop := r.run < 3 ∧ (0 < r.run → 14 ≤ r.slot)

theorem Carried.slotInv (carried : Carried r) (s : Sector) : SlotInv s lba 0 r :=
  ⟨carried.1, fun going => .inr (carried.2 going), fun z _ _ => by omega, fun z low => by omega⟩

theorem SlotInv.carried (inv : SlotInv s lba 16 r) : Carried r := by
  refine ⟨inv.short, fun going => ?_⟩
  have short := inv.short
  rcases inv.began going with ⟨_, reach, _⟩ | early
  · omega
  · exact early

variable (vol : Volume m d)

include vol

theorem scanSlotSectors_spec (here : SlotRun) (chain : rootChain m d i = some b)
    (inside : k + left = m.sectorsPerCluster) (carried : Carried r) :
    match scanSlotSectors d here (exfatClusterLba m b) k left r with
    | .found r' => RootSlot m d r' ∨ 14 ≤ r'.slot
    | .exhausted r' => Carried r'
    | .failed _ => False := by
  induction left generalizing k r with
  | zero => exact carried
  | succ left ih =>
    have valid := exfatResolveCluster_valid chain
    have within : k < m.sectorsPerCluster := by omega
    have accepted := vol.io.heap b k valid within
    simp only [scanSlotSectors, vol.wrap64_lba valid within, blockRead, accepted, if_true]
    have scanned := scanSlots_spec { here with sectorIndex := k, lba := heapSector m b k }
      (carried.slotInv (d.data (heapSector m b k))) (Nat.zero_add 16)
    cases outcome : scanSlots (d.data (heapSector m b k))
        { here with sectorIndex := k, lba := heapSector m b k } 0 16 r with
    | found r' =>
      rw [outcome] at scanned
      exact scanned.imp (fun foundAt => ⟨i, b, k, chain, within, foundAt⟩) id
    | exhausted r' =>
      rw [outcome] at scanned
      exact ih (by omega) (SlotInv.carried scanned)
    | failed r' =>
      rw [outcome] at scanned
      exact scanned

theorem scanSlotClusters_spec (carried : Carried r) (found : scanSlotClusters m d i left r = .found r') :
    RootSlot m d r' ∨ 14 ≤ r'.slot := by
  induction left generalizing i r with
  | zero => cases found
  | succ left ih =>
    simp only [scanSlotClusters] at found
    cases chain : exfatResolveCluster m d m.exfat.rootDirCluster 0 i with
    | none => simp [chain] at found
    | some b =>
      simp only [chain, vol.exfatClusterLba_ne_max (exfatResolveCluster_valid chain)] at found
      have scanned := scanSlotSectors_spec vol { cluster := b, clusterIndex := i }
        chain (Nat.zero_add m.sectorsPerCluster) carried
      cases outcome : scanSlotSectors d { cluster := b, clusterIndex := i }
          (exfatClusterLba m b) 0 m.sectorsPerCluster r with
      | found r'' =>
        rw [outcome] at scanned found
        cases found
        exact scanned
      | exhausted r'' =>
        rw [outcome] at scanned found
        exact ih scanned found
      | failed r'' =>
        rw [outcome] at found
        cases found

theorem searchRootDirectorySlots_spec
    (found : searchRootDirectorySlots m d = .found r) : RootSlot m d r ∨ 14 ≤ r.slot := by
  simp only [searchRootDirectorySlots] at found
  split at found
  · cases found
  · exact scanSlotClusters_spec vol ⟨by decide, by simp⟩ found

theorem findExfatRootDirectorySlot_spec
    (found : findExfatRootDirectorySlot m d = some (lba, off)) (fits : off + 96 ≤ 512) :
    ∃ r, RootSlot m d r ∧ lba = r.lba ∧ off = r.slot * 32 := by
  simp only [findExfatRootDirectorySlot] at found
  split at found
  · rename_i r searched
    obtain ⟨rfl, rfl⟩ := found
    simp only [exfatEntrySize] at fits
    refine ⟨r, (searchRootDirectorySlots_spec vol searched).resolve_right (by omega), rfl, rfl⟩
  · cases found

def Followable (cs : List Nat) : Prop := ∀ c ∈ cs.tail, c < 0xfffffff8

/-- Collecting a chain of at most three clusters yields it up to the first link that reads as
    an end mark, which is all of it unless the volume has clusters with such numbers. -/
theorem collectChainFrom_spec {rest} (done : List Nat) (linked : Linked (fatWord m d) fatEnd (c :: rest))
    (valid : ∀ b ∈ c :: rest, exfatClusterValid m b) (few : rest.length < left) :
    ∃ kept, kept <+: rest ∧ collectChainFrom m d left c done = some (done ++ c :: kept) ∧
      ((∀ b ∈ rest, b < 0xfffffff8) → kept = rest) := by
  have here := vol.exfatReadFatEntry_eq (valid c List.mem_cons_self)
  obtain ⟨left, rfl⟩ : ∃ k, left = k + 1 := ⟨left - 1, by omega⟩
  induction rest generalizing left c done with
  | nil =>
    have ends := linked.1
    refine ⟨[], List.prefix_refl _, ?_, fun _ => rfl⟩
    rw [collectChainFrom, here, ends, Option.bind_eq_bind, Option.bind_some, if_pos (by decide)]
  | cons b rest ih =>
    have next : fatWord m d c = b := linked.1
    have validNext := valid b (by simp)
    rw [collectChainFrom, here, next, Option.bind_eq_bind, Option.bind_some]
    by_cases mark : 0xfffffff8 ≤ b
    · rw [if_pos mark]
      refine ⟨[], List.nil_prefix, rfl, fun small => ?_⟩
      exact absurd (small b List.mem_cons_self) (Nat.not_lt.mpr mark)
    · obtain ⟨left, rfl⟩ : ∃ k, left = k + 1 := ⟨left - 1, by simp only [List.length_cons] at few; omega⟩
      obtain ⟨kept, isPrefix, collected, whole⟩ := ih (done ++ [c]) linked.2
        (fun a member => valid a (List.mem_cons_of_mem c member))
        (vol.exfatReadFatEntry_eq validNext) left (by simp only [List.length_cons] at few; omega)
      refine ⟨b :: kept, List.prefix_cons_inj b |>.mpr isPrefix, ?_, fun small => ?_⟩
      · rw [if_neg mark, validNext, Bool.not_true, if_neg Bool.false_ne_true, collected,
          List.append_assoc, List.singleton_append]
      · rw [whole fun a member => small a (List.mem_cons_of_mem b member)]

/-- The chain of a writable entry, as far as the code can follow it. -/
theorem collectExfatTestClusterChain_spec (writable : e.writable)
    (first : cs.head? = some e.firstCluster) (linked : Linked (fatWord m d) fatEnd cs)
    (valid : ∀ c ∈ cs, exfatClusterValid m c) (few : cs.length ≤ 3) :
    ∃ kept, kept <+: cs ∧ kept ≠ [] ∧ collectExfatTestClusterChain m d e = some kept ∧
      (Followable cs → kept = cs) := by
  obtain ⟨rest, rfl⟩ := List.head?_eq_some_iff.mp first
  obtain ⟨kept, isPrefix, collected, whole⟩ := collectChainFrom_spec vol
    [] linked valid (few : rest.length < exfatAllocPlanClusterCount)
  refine ⟨e.firstCluster :: kept, (List.prefix_cons_inj _).mpr isPrefix, List.cons_ne_nil _ _, ?_,
    fun followable => ?_⟩
  · simp only [collectExfatTestClusterChain, writable, valid _ List.mem_cons_self]
    exact collected
  · rw [whole followable]

end TangPingOS
