import TangPingOS.Lib.Avoids
import TangPingOS.Process.Spawn

/-! # Where the queue of stacks can overflow

Only `release_task_resources` reports a full queue of stacks. None of the functions of
the memory, of the loader and of task creation does.
-/

namespace TangPingOS

open Lib

def NeverFull {α : Type} (x : Except Panic α) : Prop := Avoids Panic.pendingStackFreeQueueFull x

namespace NeverFull

section Memory

theorem pmmAllocPage : NeverFull (TangPingOS.pmmAllocPage k) := by
  unfold TangPingOS.pmmAllocPage
  split
  · exact .error nofun
  · exact .ok _

theorem pmmFreePage (physAddr : Nat) (k : Machine) : NeverFull (TangPingOS.pmmFreePage physAddr k) :=
  .ite (.error nofun) (.ite (.error nofun) (.ok _))

theorem vmmNextLevel (table index flags : Nat) (k : Machine) :
    NeverFull (TangPingOS.vmmNextLevel table index flags k) :=
  .ite (.bind pmmAllocPage fun _ => .ok _) (.ok _)

theorem vmmMapPageIn (cr3Phys virtAddr physAddr flags : Nat) (k : Machine) :
    NeverFull (TangPingOS.vmmMapPageIn cr3Phys virtAddr physAddr flags k) := by
  refine .ite (.ok _) ?_
  refine .bind (vmmNextLevel ..) fun _ => ?_
  refine .bind (vmmNextLevel ..) fun _ => ?_
  exact .bind (vmmNextLevel ..) fun _ => .ok _

theorem heapMapPages (count : Nat) (k : Machine) : NeverFull (TangPingOS.heapMapPages count k) := by
  induction count generalizing k with
  | zero => exact .ok k
  | succ count ih =>
    refine .bind pmmAllocPage fun _ => .bind (vmmMapPageIn ..) fun _ => ?_
    exact .ite (ih _) (.error nofun)

theorem kmalloc (size : Nat) (k : Machine) : NeverFull (TangPingOS.kmalloc size k) := by
  refine .ite (.ok _) ?_
  simp only
  split
  · exact .ok _
  · exact .ite (.error nofun) (.bind (heapMapPages ..) fun _ => .ok _)

theorem kfree (ptr : Nat) (k : Machine) : NeverFull (TangPingOS.kfree ptr k) := by
  refine .ite (.ok _) ?_
  split
  · exact .error nofun
  · exact .ok _

/-- Freeing the entries of a table reports what freeing a child reports, or a huge page. -/
theorem freeEntries (child : ∀ phys k, NeverFull (freeChild phys k))
    (other : ∀ panic, huge = some panic → panic ≠ .pendingStackFreeQueueFull) (table index left freed : Nat)
    (k : Machine) :
    NeverFull (TangPingOS.freeEntries freeChild huge table index left freed k) := by
  induction left generalizing index freed k with
  | zero => exact .ok _
  | succ left ih =>
    refine .ite (ih ..) ?_
    split
    · rename_i panic _
      exact .error (other panic rfl)
    · exact .bind (child _ _) fun _ => ih ..

theorem freeTable (child : ∀ phys k, NeverFull (freeChild phys k))
    (other : ∀ panic, huge = some panic → panic ≠ .pendingStackFreeQueueFull) (phys : Nat) (k : Machine) :
    NeverFull (TangPingOS.freeTable freeChild huge phys k) :=
  .bind (freeEntries child other ..) fun _ => .bind (pmmFreePage ..) fun _ => .ok _

theorem vmmFreePdpt (phys : Nat) (k : Machine) : NeverFull (TangPingOS.vmmFreePdpt phys k) := by
  have leaf : ∀ phys k, NeverFull (freeLeaf phys k) :=
    fun phys k => .bind (pmmFreePage phys k) fun _ => .ok _
  have pt : ∀ phys k, NeverFull (vmmFreePt phys k) := freeTable leaf nofun
  have pd : ∀ phys k, NeverFull (vmmFreePd phys k) := by
    refine freeTable pt ?_
    nofun
  refine freeTable pd ?_ phys k
  nofun

theorem vmmDestroyUserAddressSpace (cr3Phys : Nat) (k : Machine) :
    NeverFull (TangPingOS.vmmDestroyUserAddressSpace cr3Phys k) := by
  refine .ite (.ok _) (.bind ?_ fun _ => .bind (pmmFreePage ..) fun _ => .ok _)
  have plain : ∀ panic, (none : Option Panic) = some panic → panic ≠ .pendingStackFreeQueueFull := nofun
  exact freeEntries vmmFreePdpt plain ..

end Memory

section Loading

theorem mapFreshPages (cr3Phys flags : Nat) (panic : Panic) (other : panic ≠ .pendingStackFreeQueueFull)
    (count page : Nat) (k : Machine) :
    NeverFull (TangPingOS.mapFreshPages cr3Phys flags panic count page k) := by
  induction count generalizing page k with
  | zero => exact .ok k
  | succ count ih =>
    refine .bind pmmAllocPage fun _ => .bind (vmmMapPageIn ..) fun _ => ?_
    exact .ite (ih ..) (.error other)

section

variable (cr3Phys : Nat) (image : Bytes)

theorem mapSegmentPages (phdr : Elf64Phdr) (count page : Nat)
    (k : Machine) : NeverFull (TangPingOS.mapSegmentPages cr3Phys image phdr count page k) := by
  induction count generalizing page k with
  | zero => exact .ok k
  | succ count ih =>
    refine .bind pmmAllocPage fun _ => .bind (vmmMapPageIn ..) fun _ => ?_
    exact .ite (ih ..) (.error nofun)

theorem checkElfSegment (imageSize : Nat) (phdr : Elf64Phdr) :
    NeverFull (TangPingOS.checkElfSegment imageSize phdr) :=
  .ite (.error nofun) (.ite (.error nofun) (.ite (.error nofun) (.ite (.error nofun)
    (.ite (.error nofun) (.ok _)))))

theorem mapElfSegment (phdr : Elf64Phdr) (k : Machine) :
    NeverFull (TangPingOS.mapElfSegment cr3Phys image phdr k) :=
  .ite (.ok _) (.bind (checkElfSegment ..) fun _ => mapSegmentPages ..)

theorem loadSegments (phdrs : List Elf64Phdr) (imageEnd : Nat)
    (k : Machine) : NeverFull (TangPingOS.loadSegments cr3Phys image phdrs imageEnd k) := by
  induction phdrs generalizing imageEnd k with
  | nil => exact .ok _
  | cons phdr phdrs ih => exact .ite (.bind (mapElfSegment ..) fun _ => ih ..) (ih ..)

end

theorem validateElfHeader : NeverFull (TangPingOS.validateElfHeader image) :=
  .ite (.error nofun) (.ite (.error nofun) (.ite (.error nofun) (.ite (.error nofun)
    (.ite (.error nofun) (.ite (.error nofun) (.ite (.error nofun) (.ok _)))))))

theorem buildAddressSpace (image : Bytes) (m : Machine) : NeverFull (TangPingOS.buildAddressSpace image m) := by
  refine .bind (.bind pmmAllocPage fun _ => .ok _) fun _ => ?_
  refine .bind (.bind validateElfHeader fun _ => .bind (loadSegments ..) fun _ => .ok _) fun _ => ?_
  exact .bind (mapFreshPages _ _ .mapUserStack nofun ..) fun _ => .ok _

end Loading

section Tasks

theorem schedulerCreateTask : NeverFull (TangPingOS.schedulerCreateTask name trampoline entry arg k) :=
  .ite (.ok _) (.bind (kmalloc ..) fun _ => .ok _)

theorem schedulerCreateUserTask (name : Bytes)
    (cr3Phys entry userStackTop arg0 arg1 brkStart brkLimit : Nat) (k : Kernel) :
    NeverFull (TangPingOS.schedulerCreateUserTask name cr3Phys entry userStackTop arg0 arg1 brkStart
      brkLimit k) :=
  .ite (.ok _) (.bind (kmalloc ..) fun _ => .ok _)

theorem abandonSpawn (buffer cr3Phys : Nat) (k : Kernel) : NeverFull (TangPingOS.abandonSpawn buffer cr3Phys k) :=
  .bind (kfree ..) fun _ => .bind (vmmDestroyUserAddressSpace ..) fun _ => .ok _

theorem spawnImage (path args image : Bytes) (buffer : Nat) (k : Kernel) :
    NeverFull (TangPingOS.spawnImage path args image buffer k) := by
  refine .bind (buildAddressSpace ..) fun _ => ?_
  simp only
  split
  · exact abandonSpawn ..
  · refine .bind (schedulerCreateUserTask ..) fun _ => ?_
    exact .ite (.bind (kfree ..) fun _ => .ok _) (abandonSpawn ..)

theorem userSpawnFromVfsWithArgs : NeverFull (TangPingOS.userSpawnFromVfsWithArgs path args file k) := by
  refine .ite (.ok _) (.bind (kmalloc ..) fun _ => .ite (.ok _) ?_)
  split
  · exact .ite (spawnImage ..) (.bind (kfree ..) fun _ => .ok _)
  · exact .bind (kfree ..) fun _ => .ok _

theorem userInitFromModules : NeverFull (TangPingOS.userInitFromModules image k) := by
  refine .bind (buildAddressSpace ..) fun _ => .bind (schedulerCreateUserTask ..) fun _ => ?_
  exact .ite (.ok _) (.error nofun)

theorem schedulerSetCurrentBrk : NeverFull (TangPingOS.schedulerSetCurrentBrk newBreak k) := by
  unfold TangPingOS.schedulerSetCurrentBrk
  split
  · refine .ite (.ok _) (.ite (.ok _) ?_)
    exact .ite (.bind (mapFreshPages _ _ .growUserHeap nofun ..) fun _ => .ok _) (.ok _)
  · exact .ok _

theorem schedulerOnTimerTick : NeverFull (TangPingOS.schedulerOnTimerTick frame k) := by
  refine .ite (.ok _) (.bind (.bind (.foldlM (fun m stack => kfree stack m) ..) fun _ => .ok _) fun _ => ?_)
  exact .ite (.ok _) (.ok _)

end Tasks

end NeverFull

end TangPingOS
