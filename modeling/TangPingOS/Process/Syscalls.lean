import TangPingOS.Lib.Chunks
import TangPingOS.Memory.PageTables
import TangPingOS.Process.Terminal

/-! # System calls that copy from the caller

The other half of `kernel/usercopy.c`, and the write calls of `kernel/syscall.c`, which move
a buffer of the caller in chunks. What a terminal shows is left out.

A range that `usercopy_validate_range` accepts can be copied from, in any pieces.
-/

namespace TangPingOS

open Lib

variable {write : Bool} {m : Machine} {addr base count cr3Phys done len rounds : Nat}

def syscallWriteChunkSize : Nat := 128
def syscallPathMax : Nat := 128

def Machine.bytesAt (m : Machine) (phys count : Nat) : Bytes :=
  (List.range count).map fun i => m.byteAt (phys + i)

/-- The loop of `copy_from_user`; every round copies up to the end of a page. -/
def copyFromUserPages (cr3Phys : Nat) (m : Machine) : Nat → Nat → Nat → Option Bytes
  | _, _, 0 => some []
  | 0, _, _ + 1 => none
  | rounds + 1, addr, len + 1 =>
    match vmmTranslateUserAddr cr3Phys addr false m with
    | none => none
    | some phys =>
      let count := min (pageSize - addr % pageSize) (len + 1)
      (copyFromUserPages cr3Phys m rounds (addr + count) (len + 1 - count)).map fun rest =>
        m.bytesAt phys count ++ rest

/-- `copy_from_user`, into a buffer of the kernel: none for -1. -/
def copyFromUser (userSrc len : Nat) (m : Machine) : Option Bytes :=
  if len = 0 then some []
  else if userSrc = 0 ∨ rangeWraps userSrc len then none
  else copyFromUserPages (vmmCurrentAddressSpace m) m len userSrc len

/-- The loop of `copy_string_from_user`, with room for `left` characters. -/
def copyCharacters (cr3Phys : Nat) (m : Machine) : Nat → Nat → Option Bytes
  | 0, _ => none
  | left + 1, addr =>
    match vmmTranslateUserAddr cr3Phys (wrap64 addr) false m with
    | none => none
    | some phys =>
      if m.byteAt phys = 0 then some []
      else (copyCharacters cr3Phys m left (addr + 1)).map fun rest => m.byteAt phys :: rest

/-- `copy_string_from_user`: the characters before the zero, or none for -1. -/
def copyStringFromUser (userSrc maxLen : Nat) (m : Machine) : Option Bytes :=
  if userSrc = 0 ∨ maxLen = 0 then none
  else copyCharacters (vmmCurrentAddressSpace m) m maxLen userSrc

/-- `scheduler_write_current_file`, for whatever is the current task. -/
def Kernel.writeCurrentFile {σ : Type} (table : List (Filesystem σ)) (fd : Int) (bytes : Bytes) (s : σ)
    (k : Kernel) : Option Nat × σ × Kernel :=
  match k.current with
  | .task i =>
    let (written, s, task) := TangPingOS.writeCurrentFile table fd (some bytes) s (k.taskAt (.task i))
    (written, s, k.modifyTask (.task i) fun _ => task)
  | _ => (none, s, k)

/-- `syscall_write_buffer`: the result, none for -1, and the text that goes to the terminal. -/
def syscallWriteBuffer (buf len : Nat) (m : Machine) : Option Nat × Bytes :=
  if !usercopyValidateRange buf len false m then (none, [])
  else
    chunks syscallWriteChunkSize len (fun written toCopy _ => copyFromUser (wrap64 (buf + written)) toCopy m)
      (fun _ chunk text => (some chunk.length, text ++ chunk)) (len + 1) 0 []

section Calls

variable {σ : Type} (table : List (Filesystem σ))

/-- `syscall_write`: none for -1. -/
def syscallWrite (fd buf len : Nat) (s : σ) (k : Kernel) : Option Nat × σ × Kernel :=
  if k.currentFdIsTty (asInt fd) then ((syscallWriteBuffer buf len k.machine).1, s, k)
  else if !usercopyValidateRange buf len false k.machine then (none, s, k)
  else
    chunks syscallWriteChunkSize len
      (fun written toCopy (t : σ × Kernel) => copyFromUser (wrap64 (buf + written)) toCopy t.2.machine)
      (fun _ chunk t => t.2.writeCurrentFile table (asInt fd) chunk t.1) (len + 1) 0 (s, k)

def syscallWriteFile (path offset buffer len : Nat) (s : σ) (k : Kernel) : Option Nat × σ :=
  match copyStringFromUser path syscallPathMax k.machine with
  | none => (none, s)
  | some path =>
    if !usercopyValidateRange buffer len false k.machine then (none, s)
    else
      chunks syscallReadChunkSize len
        (fun written toCopy _ => copyFromUser (wrap64 (buffer + written)) toCopy k.machine)
        (fun written chunk s => vfsWriteFile table path (wrap64 (offset + written)) chunk s) (len + 1) 0 s

end Calls

def Readable (base len : Nat) (m : Machine) : Prop :=
  ∀ i < len, (vmmTranslateUserAddr (vmmCurrentAddressSpace m) (base + i) false m).isSome

def userByte (addr : Nat) (m : Machine) : UInt8 :=
  match vmmTranslateUserAddr (vmmCurrentAddressSpace m) addr false m with
  | some phys => m.byteAt phys
  | none => 0

def userBytes (base len : Nat) (m : Machine) : Bytes := (List.range len).map fun i => userByte (base + i) m

@[simp] theorem length_userBytes (base len : Nat) (m : Machine) : (userBytes base len m).length = len := by
  simp [userBytes]

theorem userBytes_append (base a b : Nat) (m : Machine) :
    userBytes base (a + b) m = userBytes base a m ++ userBytes (base + a) b m := by
  simp [userBytes, List.range_add, Nat.add_assoc]

theorem userBytes_part (within : done + count ≤ len) :
    userBytes (base + done) count m = ((userBytes base len m).drop done).take count := by
  obtain ⟨rest, rfl⟩ := Nat.exists_eq_add_of_le within
  have parts := userBytes_append base (done + count) rest m
  rw [parts, userBytes_append base done count, List.append_assoc]
  rw [List.drop_left' (length_userBytes base done m), List.take_left' (length_userBytes _ count m)]

theorem Readable.part (readable : Readable base len m)
    (within : done + count ≤ len) : Readable (base + done) count m := by
  intro i inside
  rw [Nat.add_assoc]
  exact readable (done + i) (by omega)

theorem Readable.bound (readable : Readable base len m) (some_ : 0 < len) : base + len ≤ userVirtMax := by
  obtain ⟨phys, found⟩ := Option.isSome_iff_exists.mp (readable (len - 1) (by omega))
  have last := vmmTranslateUserAddr_lt found
  omega

theorem bytesAt_page (found : vmmTranslateUserAddr (vmmCurrentAddressSpace m) addr false m = some phys)
    (inside : count ≤ pageSize - addr % pageSize) : m.bytesAt phys count = userBytes addr count m := by
  apply List.map_congr_left
  intro i member
  have low := List.mem_range.mp member
  have next := vmmTranslateUserAddr_add (i := i) found (by omega)
  simp only [userByte, next]

theorem copyFromUserPages_eq (readable : Readable addr len m) (enough : len ≤ rounds) :
    copyFromUserPages (vmmCurrentAddressSpace m) m rounds addr len = some (userBytes addr len m) := by
  induction rounds generalizing addr len with
  | zero =>
    obtain rfl : len = 0 := by omega
    rfl
  | succ rounds ih =>
    cases len with
    | zero => rfl
    | succ len =>
      obtain ⟨phys, found⟩ := Option.isSome_iff_exists.mp (readable 0 (by omega))
      rw [Nat.add_zero] at found
      simp only [copyFromUserPages, found]
      have positive : 0 < pageSize - addr % pageSize :=
        Nat.sub_pos_of_lt (Nat.mod_lt addr (by decide))
      generalize isCount : min (pageSize - addr % pageSize) (len + 1) = count
      have within : count ≤ len + 1 := by omega
      rw [ih (readable.part (by omega)) (by omega), Option.map_some,
        bytesAt_page found (by omega), ← userBytes_append, Nat.add_sub_cancel' within]

def Permitted (cr3Phys base len : Nat) (write : Bool) (m : Machine) : Prop :=
  ∀ i < len, (vmmTranslateUserAddr cr3Phys (base + i) write m).isSome

/-- A range is permitted if its first byte is, and what follows the first byte's page. -/
theorem permitted_page (within : count ≤ len) (some_ : 0 < count) (inside : count ≤ pageSize - addr % pageSize) :
    Permitted cr3Phys addr len write m ↔ (vmmTranslateUserAddr cr3Phys addr write m).isSome ∧
      Permitted cr3Phys (addr + count) (len - count) write m := by
  constructor
  · intro permitted
    refine ⟨permitted 0 (by omega), fun i low => ?_⟩
    rw [Nat.add_assoc]
    exact permitted (count + i) (by omega)
  · rintro ⟨first, later⟩ i low
    obtain ⟨phys, found⟩ := Option.isSome_iff_exists.mp first
    by_cases here : i < count
    · rw [vmmTranslateUserAddr_add found (by omega)]
      rfl
    · have next := later (i - count) (by omega)
      rwa [Nat.add_assoc, Nat.add_sub_cancel' (Nat.not_lt.mp here)] at next

/-- The check of a page at a time is the check of every byte. -/
theorem validatePages_iff (enough : len ≤ rounds) :
    validatePages cr3Phys write m rounds addr len ↔ Permitted cr3Phys addr len write m := by
  induction rounds generalizing addr len with
  | zero =>
    obtain rfl : len = 0 := by omega
    exact ⟨fun _ i low => absurd low (Nat.not_lt_zero i), fun _ => rfl⟩
  | succ rounds ih =>
    cases len with
    | zero => exact ⟨fun _ i low => absurd low (Nat.not_lt_zero i), fun _ => rfl⟩
    | succ len =>
      have positive : 0 < pageSize - addr % pageSize := Nat.sub_pos_of_lt (Nat.mod_lt addr (by decide))
      have some_ : 0 < min (pageSize - addr % pageSize) (len + 1) := by omega
      rw [permitted_page (Nat.min_le_right _ _) some_ (Nat.min_le_left _ _)]
      cases found : vmmTranslateUserAddr cr3Phys addr write m with
      | none => simp [validatePages, found]
      | some phys =>
        simp only [validatePages, found, Option.isSome_some, true_and]
        exact ih (by omega)

theorem usercopyValidateRange_readable (valid : usercopyValidateRange base len false m) : Readable base len m := by
  unfold usercopyValidateRange at valid
  split at valid
  · rename_i none
    subst none
    exact fun i inside => nomatch inside
  · split at valid
    · cases valid
    · exact (validatePages_iff (Nat.le_refl len)).mp valid

/-- Any piece of an accepted range is copied, unless its address is null. -/
theorem copyFromUser_part (readable : Readable base len m) (within : done + count ≤ len) (real : 0 < base + done) :
    copyFromUser (wrap64 (base + done)) count m = some (((userBytes base len m).drop done).take count) := by
  rw [← userBytes_part within]
  unfold copyFromUser
  split
  · rename_i none
    subst none
    rfl
  · have bound := readable.bound (by omega)
    have fits : base + len < 2 ^ 64 := by
      unfold userVirtMax at bound
      omega
    have same : wrap64 (base + done) = base + done := Nat.mod_eq_of_lt (by omega)
    have straight : rangeWraps (base + done) count = false := by
      have last : wrap64 (base + done + count - 1) = base + done + count - 1 := Nat.mod_eq_of_lt (by omega)
      simp only [rangeWraps, Bool.and_eq_false_iff, decide_eq_false_iff_not]
      omega
    rw [same, straight, if_neg (by simp; omega)]
    exact copyFromUserPages_eq (readable.part within) (Nat.le_refl count)

end TangPingOS
