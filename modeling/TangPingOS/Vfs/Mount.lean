import TangPingOS.Lib.Bytes

/-! # The virtual filesystem

The mount table of `kernel/vfs.c` and the loops that pass a call on to the mounted
filesystems: each tries the ones whose mount path matches, in the order in which they
were registered, until one succeeds. A filesystem is what its functions do to a state
that all of them share; a function it does not have is none. Registration, the
names and sources of mounts, which are only reported, and directory listing are left out.
-/

namespace TangPingOS

open Lib

def slash : UInt8 := 0x2f

def vfsMountPathMax : Nat := 64

/-- `struct vfs_filesystem`. A result -1 is none or false; a read yields the bytes it copied. -/
structure Filesystem (σ : Type) where
  path : Bytes
  read : Bytes → Nat → Nat → σ → Option Bytes
  write : Option (Bytes → Nat → Bytes → σ → Option Nat × σ)
  size : Option (Bytes → σ → Option Nat)
  truncate : Option (Bytes → Nat → σ → Bool × σ)
  unlink : Option (Bytes → σ → Bool × σ)

section Table

variable {σ : Type}

/-- What is left of a path behind a mount path: either nothing or a slash and more. -/
def mountRest (mount path : Bytes) : Option Bytes :=
  if mount.isPrefixOf path then
    match path.drop mount.length with
    | [] => some []
    | c :: rest => if c = slash then some (c :: rest) else none
  else none

def mountPathMatches (fs : Filesystem σ) (path : Bytes) : Bool :=
  path.head? == some slash && (fs.path == [slash] || (mountRest fs.path path).isSome)

def mountLocalPath (fs : Filesystem σ) (path : Bytes) : Bytes :=
  if fs.path = [slash] then path
  else if path.drop fs.path.length = [] then [slash]
  else path.drop fs.path.length

/-- The loop over the mounted filesystems: which of them satisfies a call, and with what result.
    `call` is what a filesystem does with its local path, if it has the function at all. -/
def dispatch {α : Type} (call : Filesystem σ → Option (Bytes → σ → Option α × σ)) (path : Bytes) :
    List (Filesystem σ) → σ → Option (Filesystem σ × α) × σ
  | [], s => (none, s)
  | fs :: rest, s =>
    match call fs with
    | none => dispatch call path rest s
    | some f =>
      if !mountPathMatches fs path then dispatch call path rest s
      else
        match f (mountLocalPath fs path) s with
        | (some result, s) => (some (fs, result), s)
        | (none, s) => dispatch call path rest s

def succeeded (f : σ → Bool × σ) (s : σ) : Option Unit × σ :=
  (if (f s).1 then some () else none, (f s).2)

@[simp] theorem succeeded_isSome (s : σ) : (succeeded f s).1.isSome = (f s).1 := by
  cases ran : (f s).1 <;> simp [succeeded, ran]

/-- What `vfs_read_file` asks of a filesystem. -/
def readCall (offset len : Nat) (fs : Filesystem σ) : Option (Bytes → σ → Option Bytes × σ) :=
  some fun path s => (fs.read path offset len s, s)

def writeCall (offset : Nat) (bytes : Bytes) (fs : Filesystem σ) : Option (Bytes → σ → Option Nat × σ) :=
  fs.write.map fun write path s => write path offset bytes s

/-- `vfs_write_existing_file` asks first whether the file is there. -/
def writeExistingCall (offset : Nat) (bytes : Bytes) (fs : Filesystem σ) : Option (Bytes → σ → Option Nat × σ) :=
  fs.write.map fun write path s =>
    if (fs.read path 0 0 s).isNone then (none, s) else write path offset bytes s

def sizeCall (fs : Filesystem σ) : Option (Bytes → σ → Option Nat × σ) :=
  fs.size.map fun size path s => (size path s, s)

def truncateCall (size : Nat) (fs : Filesystem σ) : Option (Bytes → σ → Option Unit × σ) :=
  fs.truncate.map fun truncate path => succeeded (truncate path size)

def unlinkCall (fs : Filesystem σ) : Option (Bytes → σ → Option Unit × σ) :=
  fs.unlink.map fun unlink path => succeeded (unlink path)

section

variable (table : List (Filesystem σ)) (path : Bytes)

def vfsReadFile (offset len : Nat) (s : σ) : Option Bytes :=
  (dispatch (readCall offset len) path table s).1.map Prod.snd

def vfsFileExists (s : σ) : Bool :=
  (vfsReadFile table path 0 0 s).isSome

def vfsWriteFile (offset : Nat) (bytes : Bytes) (s : σ) : Option Nat × σ :=
  let (result, s) := dispatch (writeCall offset bytes) path table s
  (result.map Prod.snd, s)

def vfsWriteExistingFile (offset : Nat) (bytes : Bytes) (s : σ) : Option Nat × σ :=
  let (result, s) := dispatch (writeExistingCall offset bytes) path table s
  (result.map Prod.snd, s)

def vfsFileSize (s : σ) : Option Nat :=
  (dispatch sizeCall path table s).1.map Prod.snd

def vfsTruncateFile (size : Nat) (s : σ) : Bool × σ :=
  let (result, s) := dispatch (truncateCall size) path table s
  (result.isSome, s)

def vfsCreateFile (s : σ) : Bool × σ :=
  vfsTruncateFile table path 0 s

end

/-! ## Which mounts a path reaches -/

theorem mountRest_eq_some :
    mountRest mount path = some rest ↔
      path = mount ++ rest ∧ (rest = [] ∨ rest.head? = some slash) := by
  unfold mountRest
  constructor
  · intro found
    split at found
    · rename_i isPrefix
      obtain ⟨more, rfl⟩ := List.isPrefixOf_iff_prefix.mp isPrefix
      rw [List.drop_left] at found
      cases more with
      | nil =>
        cases found
        exact ⟨rfl, .inl rfl⟩
      | cons c more =>
        simp only at found
        split at found
        · rename_i isSlash
          cases found
          exact ⟨rfl, .inr (by rw [List.head?_cons, isSlash])⟩
        · cases found
    · cases found
  · rintro ⟨rfl, ends⟩
    rw [if_pos (List.isPrefixOf_iff_prefix.mpr (List.prefix_append mount rest)), List.drop_left]
    cases rest with
    | nil => rfl
    | cons c rest =>
      have isSlash : c = slash := by simpa using ends
      simp [isSlash]

theorem mountPathMatches_iff :
    mountPathMatches fs path ↔
      path.head? = some slash ∧
        (fs.path = [slash] ∨ ∃ rest, path = fs.path ++ rest ∧ (rest = [] ∨ rest.head? = some slash)) := by
  simp [mountPathMatches, Option.isSome_iff_exists, mountRest_eq_some]

section Dispatch

variable {α : Type} {call : Filesystem σ → Option (Bytes → σ → Option α × σ)} {path : Bytes}
  {fs : Filesystem σ} {rest : List (Filesystem σ)} {s : σ}

theorem dispatch_skip (skipped : call fs = none ∨ mountPathMatches fs path = false) :
    dispatch call path (fs :: rest) s = dispatch call path rest s := by
  rw [dispatch]
  cases given : call fs with
  | none => rfl
  | some f =>
    rcases skipped with missing | other
    · rw [missing] at given
      cases given
    · simp [other]

theorem dispatch_failed (given : call fs = some f)
    (reached : mountPathMatches fs path) (failed : f (mountLocalPath fs path) s = (none, s')) :
    dispatch call path (fs :: rest) s = dispatch call path rest s' := by
  rw [dispatch, given]
  simp [reached, failed]

theorem dispatch_done (given : call fs = some f)
    (reached : mountPathMatches fs path) (done : f (mountLocalPath fs path) s = (some result, s')) :
    dispatch call path (fs :: rest) s = (some (fs, result), s') := by
  rw [dispatch, given]
  simp [reached, done]

/-- Whoever satisfies a call is mounted where the path leads. -/
theorem dispatch_mem (done : (dispatch call path table s).1 = some (fs, result)) :
    fs ∈ table ∧ mountPathMatches fs path := by
  induction table generalizing s with
  | nil => cases done
  | cons head rest ih =>
    have deeper : ∀ {s'}, (dispatch call path rest s').1 = some (fs, result) →
        fs ∈ head :: rest ∧ mountPathMatches fs path := by
      intro s' done
      exact ⟨List.mem_cons_of_mem head (ih done).1, (ih done).2⟩
    rw [dispatch] at done
    split at done
    · exact deeper done
    · split at done
      · exact deeper done
      · rename_i reached
        split at done
        · cases done
          exact ⟨List.mem_cons_self, by simpa using reached⟩
        · exact deeper done

theorem dispatch_relative (relative : path.head? ≠ some slash) : dispatch call path table s = (none, s) := by
  induction table with
  | nil => rfl
  | cons fs rest ih =>
    have unreached : mountPathMatches fs path = false :=
      Bool.eq_false_iff.mpr fun reached => relative (mountPathMatches_iff.mp reached).1
    rw [dispatch_skip (.inr unreached), ih]

/-- Every filesystem that is reached and has the function refuses, and leaves the state as it is. -/
theorem dispatch_refused (refuses : ∀ fs ∈ table, ∀ f, call fs = some f → mountPathMatches fs path →
      f (mountLocalPath fs path) s = (none, s)) : dispatch call path table s = (none, s) := by
  induction table with
  | nil => rfl
  | cons fs rest ih =>
    have later := ih fun other member => refuses other (List.mem_cons_of_mem fs member)
    cases given : call fs with
    | none => rw [dispatch_skip (.inl given), later]
    | some f =>
      cases reached : mountPathMatches fs path with
      | false => rw [dispatch_skip (.inr reached), later]
      | true => rw [dispatch_failed given reached (refuses fs List.mem_cons_self f given reached), later]

theorem dispatch_keeps {P : σ → Prop} (keeps : ∀ fs ∈ table, ∀ f, call fs = some f → mountPathMatches fs path →
      ∀ s, P s → P (f (mountLocalPath fs path) s).2) (start : P s) :
    P (dispatch call path table s).2 := by
  induction table generalizing s with
  | nil => exact start
  | cons fs rest ih =>
    have later : ∀ {s}, P s → P (dispatch call path rest s).2 := fun start =>
      ih (fun other member => keeps other (List.mem_cons_of_mem fs member)) start
    cases given : call fs with
    | none =>
      rw [dispatch_skip (.inl given)]
      exact later start
    | some f =>
      cases reached : mountPathMatches fs path with
      | false =>
        rw [dispatch_skip (.inr reached)]
        exact later start
      | true =>
        have kept := keeps fs List.mem_cons_self f given reached s start
        cases ran : f (mountLocalPath fs path) s with
        | mk result s' =>
          rw [ran] at kept
          cases result with
          | none =>
            rw [dispatch_failed given reached ran]
            exact later kept
          | some result =>
            rw [dispatch_done given reached ran]
            exact kept

end Dispatch

end Table

end TangPingOS
