import TangPingOS.Lib.Ring
import TangPingOS.Process.Files

/-! # The keyboard and the terminal

`kernel/input.c`, `kernel/tty.c`, the copies to user memory of `kernel/usercopy.c`, and
the read system call with its part of `syscall_dispatch`. Keys are echoed to the console,
which is left out. Of the registers of a caller those are kept that the call reads or
writes.
-/

namespace TangPingOS

open Lib

def inputBufferSize : Nat := 256
def syscallReadChunkSize : Nat := 512

def syscallReadNumber : Nat := 9

abbrev InputRing := Ring UInt8 inputBufferSize

def inputPushKey (c : UInt8) (ring : InputRing) : InputRing := ring.push c

def inputRead (len : Nat) (ring : InputRing) : Bytes × InputRing := ring.read len

def ttyOnKey (c : UInt8) (ring : InputRing) (k : Kernel) : InputRing × Kernel :=
  (inputPushKey c ring, schedulerWakeInputWaiters k)

def ttyRead (len : Nat) (ring : InputRing) : Bytes × InputRing := inputRead len ring

def rangeWraps (start len : Nat) : Bool :=
  decide (len ≠ 0) && decide (wrap64 (start + len - 1) < start)

/-- The loop of `usercopy_validate_range`; every round checks up to the end of a page. -/
def validatePages (cr3Phys : Nat) (write : Bool) (m : Machine) : Nat → Nat → Nat → Bool
  | _, _, 0 => true
  | 0, _, _ + 1 => false
  | rounds + 1, addr, len + 1 =>
    match vmmTranslateUserAddr cr3Phys addr write m with
    | none => false
    | some _ =>
      let count := min (pageSize - addr % pageSize) (len + 1)
      validatePages cr3Phys write m rounds (addr + count) (len + 1 - count)

/-- `usercopy_validate_range`. The result is false for -1. -/
def usercopyValidateRange (base len : Nat) (write : Bool) (m : Machine) : Bool :=
  if len = 0 then true
  else if rangeWraps base len then false
  else validatePages (vmmCurrentAddressSpace m) write m len base len

/-- `copy_to_user`. The Boolean is false for -1. -/
def copyToUser (userDst : Nat) (src : Bytes) (m : Machine) : Bool × Machine :=
  if src.length = 0 then (true, m)
  else if userDst = 0 ∨ rangeWraps userDst src.length then (false, m)
  else copyToUserPages (vmmCurrentAddressSpace m) src.length userDst src m

/-- A register as an `int`. -/
def asInt (value : Nat) : Int :=
  if value % 2 ^ 32 < 2 ^ 31 then value % 2 ^ 32 else (value % 2 ^ 32 : Nat) - 2 ^ 32

/-- `scheduler_current_fd_is_tty`, for whatever is the current task. -/
def Kernel.currentFdIsTty (fd : Int) (k : Kernel) : Bool :=
  match k.current with
  | .task i => TangPingOS.currentFdIsTty fd (k.taskAt (.task i))
  | _ => false

/-- `scheduler_read_current_file`, for whatever is the current task. -/
def Kernel.readCurrentFile {σ : Type} (table : List (Filesystem σ)) (fd : Int) (len : Nat) (s : σ)
    (k : Kernel) : Option Bytes × Kernel :=
  match k.current with
  | .task i =>
    let (bytes, task) := TangPingOS.readCurrentFile table fd true len s (k.taskAt (.task i))
    (bytes, k.modifyTask (.task i) fun _ => task)
  | _ => (none, k)

inductive ReadOutcome where
  | failed
  | wouldBlock
  | done (count : Nat)
  deriving DecidableEq, Repr

/-- What `syscall_read` leaves: its result, what `tty_read` handed it, the ring and the kernel. -/
structure ReadResult where
  outcome : ReadOutcome
  taken : Bytes
  ring : InputRing
  kernel : Kernel

/-- The end of `syscall_read`: what was read goes to the caller. -/
def deliver (buffer : Nat) (bytes taken : Bytes) (ring : InputRing) (k : Kernel) : ReadResult :=
  let (copied, m) := copyToUser buffer bytes k.machine
  { outcome := if copied then .done bytes.length else .failed
    taken := taken, ring := ring, kernel := k.withMachine m }

def syscallRead {σ : Type} (table : List (Filesystem σ)) (s : σ) (fd buffer len : Nat) (ring : InputRing)
    (k : Kernel) : ReadResult :=
  let toRead := min len syscallReadChunkSize
  if !usercopyValidateRange buffer toRead true k.machine then ⟨.failed, [], ring, k⟩
  else if k.currentFdIsTty (asInt fd) then
    let (bytes, ring) := ttyRead toRead ring
    if bytes.length = 0 ∧ 0 < toRead then ⟨.wouldBlock, [], ring, k⟩
    else deliver buffer bytes bytes ring k
  else
    match k.readCurrentFile table (asInt fd) toRead s with
    | (none, k) => ⟨.failed, [], ring, k⟩
    | (some bytes, k) => deliver buffer bytes [] ring k

/-- The registers of the caller that the call reads or writes. -/
structure SyscallFrame where
  rax : Nat
  rdi : Nat
  rsi : Nat
  rdx : Nat
  rip : Nat

/-- `SYSCALL_READ` in `syscall_dispatch`. A caller that would block is made to repeat the call: its
    instruction pointer goes back over the two bytes of `int 0x80`. The number is the frame to go on
    from. -/
def dispatchRead {σ : Type} (table : List (Filesystem σ)) (s : σ) (frame : Nat) (regs : SyscallFrame)
    (ring : InputRing) (k : Kernel) : Nat × SyscallFrame × ReadResult :=
  let result := syscallRead table s regs.rdi regs.rsi regs.rdx ring k
  match result.outcome with
  | .wouldBlock =>
    let (next, k) := schedulerWaitCurrentForInput frame result.kernel
    (next, { regs with rax := syscallReadNumber, rip := wrap64 (regs.rip + (2 ^ 64 - 2)) },
      { result with kernel := k })
  | .failed => (frame, { regs with rax := u64Max }, result)
  | .done count => (frame, { regs with rax := count }, result)

end TangPingOS
