import TangPingOS.EntryTable
import TangPingOS.Fat32.LongNames

/-! # The end mark of a directory

What a directory adds to the table of the mount: the files of its clusters, in order, as many as
the table has room for. The clusters are those that reading a file would find along the chain. An
end mark ends the cluster it stands in; the clusters behind it are parsed all the same.
-/

namespace TangPingOS

open Lib

/-! ## The files of a list of slots -/

/-- The files that the slots up to the end mark stand for, when `lfn` is what the decoder holds. -/
def filesOf (parent : Bytes) : LfnState → List FatEntry → List RootEntry
  | _, [] => []
  | lfn, entry :: rest =>
    if entry.get 0 = 0 then []
    else if entry.get 0 = 0xe5 then filesOf parent (fat32LfnReset lfn) rest
    else if entry.get 11 = 0x0f then filesOf parent (fat32LfnDecodeEntry entry lfn) rest
    else if !fat32EntryValid entry then filesOf parent (fat32LfnReset lfn) rest
    else
      (addExfatRootEntry [] parent (fat32EntryName entry lfn) (entry.readLe32 28)
        (entry.readLe16 20 * 2 ^ 16 + entry.readLe16 26) (entry.get 11).toNat 0).toList ++
        filesOf parent (fat32LfnReset lfn) rest

theorem parseFat32Entries_fill (lfn : LfnState) (entries : List RootEntry) :
    (parseFat32Entries parent slots ⟨lfn, entries⟩).1.entries = fill entries (filesOf parent lfn slots) := by
  induction slots generalizing lfn entries with
  | nil => simp [parseFat32Entries, filesOf, fill]
  | cons entry rest ih =>
    simp only [parseFat32Entries, parseFat32Entry, filesOf]
    by_cases ends : entry.get 0 = 0
    · simp [ends, fill]
    by_cases deleted : entry.get 0 = 0xe5
    · simp only [deleted]
      exact ih _ _
    by_cases long : entry.get 11 = 0x0f
    · simp only [ends, deleted, long]
      exact ih _ _
    cases valid : fat32EntryValid entry with
    | false =>
      simp only [ends, deleted, long]
      exact ih _ _
    | true =>
      simp only [ends, deleted, long, Bool.not_true, Bool.false_eq_true, if_false]
      rw [ih, ← fill_append, append_addExfatRootEntry]

section Chains

variable (m : Fat32Mount) (d : Device) (parent : Bytes)

def clusterSlots (cluster : Nat) : List FatEntry :=
  match m.clusterLba cluster with
  | none => []
  | some lba => readableEntries d m.fat32.sectorsPerCluster lba

/-- The clusters that `parse_fat32_directory_chain` visits, each with what the decoder's variable holds
    when its cluster is begun. -/
def chainVisits (stack : Nat → LfnState) : Nat → Nat → List (LfnState × Nat)
  | 0, _ => []
  | guard + 1, cluster =>
    (stack guard, cluster) ::
      match m.readFatEntry d cluster with
      | none => []
      | some next =>
        if 0x0ffffff8 ≤ next ∨ !m.clusterValid next then [] else chainVisits stack guard next

def visitFiles (visits : List (LfnState × Nat)) : List RootEntry :=
  visits.flatMap fun visit => filesOf parent (fat32LfnReset visit.1) (clusterSlots m d visit.2)

theorem parseFat32DirectoryCluster_fill :
    parseFat32DirectoryCluster m d parent stack cluster entries =
      fill entries (filesOf parent (fat32LfnReset stack) (clusterSlots m d cluster)) := by
  unfold parseFat32DirectoryCluster clusterSlots
  cases m.clusterLba cluster with
  | none => simp [filesOf, fill]
  | some lba =>
    simp only
    rw [parseFat32Sectors_eq, parseFat32Entries_fill]

theorem parseFat32DirectoryChain_fill (guard cluster : Nat) :
    parseFat32DirectoryChain m d parent stack guard cluster entries =
      fill entries (visitFiles m d parent (chainVisits m d stack guard cluster)) := by
  induction guard generalizing cluster entries with
  | zero => simp [parseFat32DirectoryChain, chainVisits, visitFiles, fill]
  | succ guard ih =>
    simp only [parseFat32DirectoryChain, chainVisits, parseFat32DirectoryCluster_fill]
    cases m.readFatEntry d cluster with
    | none => simp [visitFiles]
    | some next =>
      simp only
      split
      · simp [visitFiles]
      · rw [ih, fill_append]
        rfl

theorem chainVisits_clusters (stack : Nat → LfnState) (guard cluster k : Nat) :
    ((chainVisits m d stack guard cluster)[k]?).map Prod.snd =
      if k < guard then m.followChain d k cluster else none := by
  induction guard generalizing cluster k with
  | zero => simp [chainVisits]
  | succ guard ih =>
    cases k with
    | zero => simp [chainVisits, Fat32Mount.followChain]
    | succ k =>
      simp only [chainVisits, Fat32Mount.followChain, List.getElem?_cons_succ, Nat.add_lt_add_iff_right]
      cases m.readFatEntry d cluster with
      | none => simp
      | some next =>
        dsimp only
        split
        · simp
        · exact ih next k

/-- The walk from `first` on parses the clusters that `fat32_resolve_cluster` finds, one after the other. -/
structure FollowsChain (stack : Nat → LfnState) (first : Nat) (entries : List RootEntry) : Prop where
  parses : parseFat32DirectoryChain m d parent stack m.clusterCount first entries =
    (chainVisits m d stack m.clusterCount first).foldl
      (fun entries visit => parseFat32DirectoryCluster m d parent visit.1 visit.2 entries) entries
  stops : (chainVisits m d stack m.clusterCount first).length ≤ m.clusterCount
  clusters : ∀ k, ((chainVisits m d stack m.clusterCount first)[k]?).map Prod.snd =
    if k < m.clusterCount then m.resolveCluster d first k else none

theorem parseFat32DirectoryChain_foldl (guard cluster : Nat) (entries : List RootEntry) :
    parseFat32DirectoryChain m d parent stack guard cluster entries =
      (chainVisits m d stack guard cluster).foldl
        (fun entries visit => parseFat32DirectoryCluster m d parent visit.1 visit.2 entries) entries := by
  induction guard generalizing cluster entries with
  | zero => rfl
  | succ guard ih =>
    simp only [parseFat32DirectoryChain, chainVisits, List.foldl_cons]
    cases m.readFatEntry d cluster with
    | none => rfl
    | some next =>
      dsimp only
      split
      · rfl
      · exact ih next _

/-- The first end mark in chain order stands in the cluster `marked`. -/
structure FirstMark (visits before : List (LfnState × Nat)) (marked : LfnState × Nat)
    (after : List (LfnState × Nat)) : Prop where
  visits : visits = before ++ marked :: after
  unmarked : ∀ visit ∈ before, ∀ slot ∈ clusterSlots m d visit.2, slot.get 0 ≠ 0
  mark : ∃ slot ∈ clusterSlots m d marked.2, slot.get 0 = 0

end Chains

/-- Nothing behind the first end mark of the directory comes into the table, exactly if the table is full
    by then or no cluster behind it holds a file. -/
theorem fat32_end_mark_ends_iff (m : Fat32Mount) (d : Device) (parent : Bytes) (stack : Nat → LfnState)
    (guard cluster : Nat) (entries : List RootEntry) :
    (∀ before marked after, FirstMark m d (chainVisits m d stack guard cluster) before marked after →
      parseFat32DirectoryChain m d parent stack guard cluster entries =
        fill entries (visitFiles m d parent (before ++ [marked]))) ↔
    ∀ before marked after, FirstMark m d (chainVisits m d stack guard cluster) before marked after →
      maxRootEntries ≤ entries.length + (visitFiles m d parent (before ++ [marked])).length ∨
        visitFiles m d parent after = [] := by
  apply forall_congr'
  intro before
  apply forall_congr'
  intro marked
  apply forall_congr'
  intro after
  apply forall_congr'
  intro first
  have split : visitFiles m d parent (chainVisits m d stack guard cluster) =
      visitFiles m d parent (before ++ [marked]) ++ visitFiles m d parent after := by
    rw [first.visits, List.append_cons, visitFiles, visitFiles, visitFiles, List.flatMap_append]
  rw [parseFat32DirectoryChain_fill, split]
  generalize visitFiles m d parent (before ++ [marked]) = listed
  have room : maxRootEntries - entries.length - listed.length = 0 ↔
      maxRootEntries ≤ entries.length + listed.length := by omega
  simp [fill, List.take_append, room]

/-- A directory of two clusters with one file each; behind the file both have been preallocated. -/
def preallocatedDevice : Device where
  blockCount := 4
  bounded := fatDevice.bounded
  writable := false
  fault _ := false
  data lba :=
    if lba = 1 then Buf.zero.write 8 (le32 3 ++ le32 0x0fffffff)
    else if lba = 2 then sectorOfEntries [shortOne]
    else if lba = 3 then sectorOfEntries [shortTwo]
    else Buf.zero

/-- Directories and files are read along the same chain, whatever the FAT holds. -/
theorem fat32_walk_follows_chain (m : Fat32Mount) (d : Device) (parent : Bytes) (stack : Nat → LfnState)
    (first : Nat) (valid : m.clusterValid first = true) (entries : List RootEntry) :
    FollowsChain m d parent stack first entries := by
  have clusters := chainVisits_clusters m d stack m.clusterCount first
  refine ⟨parseFat32DirectoryChain_foldl m d parent _ _ _, ?_, fun k => ?_⟩
  · have stopped := clusters m.clusterCount
    simpa using stopped
  · rw [clusters, Fat32Mount.resolveCluster, valid]
    rfl

theorem fat32_walk_follows_chain_two :
    fatVolume.clusterValid 2 = true ∧
      FollowsChain fatVolume preallocatedDevice rootPath (fun _ => cleanStack) 2 [] := by
  have valid : fatVolume.clusterValid 2 := by decide
  exact ⟨valid, fat32_walk_follows_chain _ _ _ _ 2 valid []⟩

/-- `ONE.TXT` and `TWO.TXT`. -/
def oneTxt : Bytes := [0x4f, 0x4e, 0x45, 0x2e, 0x54, 0x58, 0x54]

def twoTxt : Bytes := [0x54, 0x57, 0x4f, 0x2e, 0x54, 0x58, 0x54]

/-- The end mark stands behind `ONE.TXT`, and `TWO.TXT` is listed. -/
theorem fat32_end_mark_passed :
    ∃ before marked after,
      FirstMark fatVolume preallocatedDevice (chainVisits fatVolume preallocatedDevice (fun _ => cleanStack) 2 2)
        before marked after ∧
      (fill [] (visitFiles fatVolume preallocatedDevice rootPath (before ++ [marked]))).map RootEntry.name =
        [oneTxt] ∧
      (parseFat32DirectoryChain fatVolume preallocatedDevice rootPath (fun _ => cleanStack) 2 2 []).map
        RootEntry.name = [oneTxt, twoTxt] := by
  have link : fatVolume.readFatEntry preallocatedDevice 2 = some 3 := by decide +kernel
  have last : fatVolume.readFatEntry preallocatedDevice 3 = some 0x0fffffff := by decide +kernel
  have valid : fatVolume.clusterValid 3 := by decide
  refine ⟨[], (cleanStack, 2), [(cleanStack, 3)], ⟨by simp [chainVisits, link, last, valid], by simp, ?_⟩,
    by decide +kernel, by decide +kernel⟩
  have second : ((clusterSlots fatVolume preallocatedDevice 2)[1]?).map (Buf.get · 0) = some 0 := by
    decide +kernel
  obtain ⟨slot, here, zero⟩ := Option.map_eq_some_iff.mp second
  exact ⟨slot, List.mem_of_getElem? here, zero⟩

end TangPingOS
