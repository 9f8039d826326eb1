import TangPingOS.Exfat.Files

/-! # Entry sets on disk

The bytes of the 96-byte set of a test file, and that create, resize and rename
each leave a set whose fields and checksum are those of the file.
-/

namespace TangPingOS

open Lib

theorem exfatEntrySetChecksum_congr (same : ∀ i < 96, i ≠ 2 → i ≠ 3 → a.getD i 0 = b.getD i 0) :
    exfatEntrySetChecksum a 3 = exfatEntrySetChecksum b 3 := by
  refine List.foldl_ext _ _ _ fun checksum i member => ?_
  have inside : i < 96 := List.mem_range.mp member
  by_cases stored : i = 2 ∨ i = 3
  · rw [if_pos stored, if_pos stored]
  · obtain ⟨notLow, notHigh⟩ := not_or.mp stored
    rw [if_neg stored, if_neg stored, same i inside notLow notHigh]

theorem exfatEntrySetChecksum_lt : exfatEntrySetChecksum entries entryCount < 2 ^ 16 := by
  have step (is : List Nat) (start : Nat) (small : start < 2 ^ 16) :
      is.foldl (fun checksum i =>
        if i = 2 ∨ i = 3 then checksum else exfatChecksumStep checksum (entries.getD i 0)) start <
          2 ^ 16 := by
    induction is generalizing start with
    | nil => exact small
    | cons i rest ih =>
      refine ih _ ?_
      dsimp only
      split
      · exact small
      · exact Nat.mod_lt _ (by norm_num)
  exact step _ 0 (by norm_num)

section Seal

variable {n : Nat} {b : Buf n} {off : Nat}

theorem get_sealEntrySet (outside : i < off + 2 ∨ off + 4 ≤ i) : (sealEntrySet b off).get i = b.get i := by
  rw [sealEntrySet, Buf.get_write_outside (by rw [length_le16]; omega),
    Buf.get_write_outside (by rw [length_le16]; omega)]

theorem readLe16_sealEntrySet (inside : off + 96 ≤ n) :
    (sealEntrySet b off).readLe16 (off + 2) =
      exfatEntrySetChecksum ((sealEntrySet b off).slice off 96) 3 := by
  have stored : (sealEntrySet b off).readLe16 (off + 2) =
      exfatEntrySetChecksum ((b.write (off + 2) (le16 0)).slice off 96) 3 := by
    rw [sealEntrySet, Buf.readLe16_write_self (by omega),
      Nat.mod_eq_of_lt exfatEntrySetChecksum_lt]
  rw [stored]
  refine exfatEntrySetChecksum_congr fun i small notLow notHigh => ?_
  rw [Buf.getD_slice small, Buf.getD_slice small, get_sealEntrySet (by omega),
    Buf.get_write_outside (by rw [length_le16]; omega)]

end Seal

/-- The set at `off` is that of a file with the given name, first cluster and size. -/
structure SetAt {n : Nat} (b : Buf n) (off : Nat) (name : Bytes) (first size : Nat) : Prop where
  fileMark : b.get off = 0x85
  secondaries : b.get (off + 1) = 2
  streamMark : b.get (off + 32) = 0xc0
  flags : b.get (off + 33) = 0
  nameLength : b.get (off + 35) = UInt8.ofNat name.length
  firstCluster : b.readLe32 (off + 52) = first
  size : b.readLe64 (off + 56) = size
  nameMark : b.get (off + 64) = 0xc1
  chars : ∀ i < 15, b.get (off + 66 + 2 * i) = (name.take 15).getD i 0 ∧
    b.get (off + 67 + 2 * i) = 0
  checksum : b.readLe16 (off + 2) = exfatEntrySetChecksum (b.slice off 96) 3

theorem SetAt.congr {n n' : Nat} {b : Buf n} {b' : Buf n'} {off off' : Nat} {name : Bytes}
    {first size : Nat} (set : SetAt b off name first size)
    (same : ∀ i < 96, b'.get (off' + i) = b.get (off + i)) : SetAt b' off' name first size where
  fileMark := (same 0 (by omega)).trans set.fileMark
  secondaries := (same 1 (by omega)).trans set.secondaries
  streamMark := (same 32 (by omega)).trans set.streamMark
  flags := (same 33 (by omega)).trans set.flags
  nameLength := (same 35 (by omega)).trans set.nameLength
  firstCluster := by
    rw [← set.firstCluster]
    exact Buf.readLe32_congr fun i small => by
      rw [Nat.add_assoc, Nat.add_assoc]
      exact same (52 + i) (by omega)
  size := by
    rw [← set.size]
    exact Buf.readLe64_congr fun i small => by
      rw [Nat.add_assoc, Nat.add_assoc]
      exact same (56 + i) (by omega)
  nameMark := (same 64 (by omega)).trans set.nameMark
  chars i small := by
    obtain ⟨low, high⟩ := set.chars i small
    rw [Nat.add_assoc] at low high ⊢
    rw [Nat.add_assoc off' 67]
    exact ⟨(same (66 + 2 * i) (by omega)).trans low, (same (67 + 2 * i) (by omega)).trans high⟩
  checksum := by
    have bytes : b'.slice off' 96 = b.slice off 96 :=
      List.map_congr_left fun i member => same i (List.mem_range.mp member)
    rw [bytes, ← set.checksum]
    exact Buf.readLe16_congr fun i small => by
      rw [Nat.add_assoc, Nat.add_assoc]
      exact same (2 + i) (by omega)

theorem length_exfatNameEntry : (exfatNameEntry name).length = 32 := by
  simp [exfatNameEntry, exfatEntrySize]

theorem getD_exfatNameEntry (inside : i < 32) :
    (exfatNameEntry name).getD i 0 =
      if i = 0 then 0xc1 else if 2 ≤ i ∧ i % 2 = 0 then (name.take 15).getD ((i - 2) / 2) 0 else 0 := by
  simp [exfatNameEntry, exfatEntrySize, inside]

/-- The name entry at `off` is that of `name`. -/
theorem nameChars (b : Buf n) (off : Nat) (isName : ∀ i < 32, b.get (off + i) = (exfatNameEntry name).getD i 0) :
    b.get off = 0xc1 ∧ ∀ i < 15, b.get (off + 2 + 2 * i) = (name.take 15).getD i 0 ∧
      b.get (off + 3 + 2 * i) = 0 := by
  refine ⟨?_, fun i small => ⟨?_, ?_⟩⟩
  · rw [← Nat.add_zero off, isName 0 (by omega), getD_exfatNameEntry (by omega), if_pos rfl]
  · rw [Nat.add_assoc, isName (2 + 2 * i) (by omega), getD_exfatNameEntry (by omega),
      if_neg (by omega), if_pos ⟨by omega, by omega⟩]
    congr 1
    omega
  · rw [Nat.add_assoc, isName (3 + 2 * i) (by omega), getD_exfatNameEntry (by omega),
      if_neg (by omega), if_neg (by omega)]

/-- What `encode_exfat_file_entries_for_test` encodes. -/
theorem setAt_encodeExfatFileEntries (smallFirst : first < 2 ^ 32) (smallSize : size < 2 ^ 64) :
    SetAt (encodeExfatFileEntries name first size) 0 name first size := by
  have named := nameChars (encodeExfatFileEntries name first size) 64
    fun i small => by
      rw [encodeExfatFileEntries, get_sealEntrySet (by omega),
        Buf.get_write_inside (by omega) (by rw [length_exfatNameEntry]; omega)]
  have field {i : Nat} (inside : i < 64) (notChecksum : i < 2 ∨ 4 ≤ i) :
      (encodeExfatFileEntries name first size).get i = (fileAndStreamEntries name first size).get i := by
    rw [encodeExfatFileEntries, get_sealEntrySet (by omega), Buf.get_write_outside (by omega)]
  exact
    { fileMark := by
        rw [field (by omega) (by omega)]
        simp [fileAndStreamEntries, Buf.get_write, Buf.get_set]
      secondaries := by
        rw [field (by omega) (by omega)]
        simp [fileAndStreamEntries, Buf.get_write, Buf.get_set]
      streamMark := by
        rw [field (by omega) (by omega)]
        simp [fileAndStreamEntries, Buf.get_write, Buf.get_set]
      flags := by
        rw [field (by omega) (by omega)]
        simp [fileAndStreamEntries, Buf.get_write, Buf.get_set]
      nameLength := by
        rw [field (by omega) (by omega)]
        simp [fileAndStreamEntries, Buf.get_write, Buf.get_set]
      firstCluster := by
        have same : (encodeExfatFileEntries name first size).readLe32 (0 + 52) =
            (fileAndStreamEntries name first size).readLe32 52 :=
          Buf.readLe32_congr fun i small => by rw [field (by omega) (by omega)]
        rw [same, fileAndStreamEntries, Buf.readLe32_write_outside (by simp),
          Buf.readLe32_write_self (by omega), Nat.mod_eq_of_lt smallFirst]
      size := by
        have same : (encodeExfatFileEntries name first size).readLe64 (0 + 56) =
            (fileAndStreamEntries name first size).readLe64 56 :=
          Buf.readLe64_congr fun i small => by rw [field (by omega) (by omega)]
        rw [same, fileAndStreamEntries, Buf.readLe64_write_self (by omega),
          Nat.mod_eq_of_lt smallSize]
      nameMark := named.1
      chars := fun i small => by
        simpa [Nat.add_assoc] using named.2 i small
      checksum := readLe16_sealEntrySet (by omega) }

theorem SetAt.write {b : Buf 96} {name first size off}
    (set : SetAt b 0 name first size) (s : Sector) (inside : off + 96 ≤ 512) :
    SetAt (s.write off (b.slice 0 96)) off name first size :=
  set.congr fun i small => by
    rw [Buf.get_write_inside (by omega) (by rw [Buf.length_slice]; exact small),
      Buf.getD_slice small]

section Edit

variable {s : Sector} {off : Nat} {name : Bytes} {first size : Nat} (set : SetAt s off name first size)
  (inside : off + 96 ≤ 512)

include set inside

theorem SetAt.resize (small : newSize < 2 ^ 64) : SetAt (resizedEntrySet s off newSize) off name first newSize := by
  have kept {i : Nat} (here : i < 2 ∨ 4 ≤ i ∧ i < 40 ∨ 48 ≤ i ∧ i < 56 ∨ 64 ≤ i) :
      (resizedEntrySet s off newSize).get (off + i) = s.get (off + i) := by
    rw [resizedEntrySet, get_sealEntrySet (by omega),
      Buf.get_write_outside (by rw [length_le64]; omega),
      Buf.get_write_outside (by rw [length_le64]; omega)]
  exact
    { fileMark := (kept (i := 0) (by omega)).trans set.fileMark
      secondaries := (kept (by omega)).trans set.secondaries
      streamMark := (kept (by omega)).trans set.streamMark
      flags := (kept (by omega)).trans set.flags
      nameLength := (kept (by omega)).trans set.nameLength
      firstCluster := by
        rw [← set.firstCluster]
        exact Buf.readLe32_congr fun i inField => by
          rw [Nat.add_assoc]
          exact kept (by omega)
      size := by
        have same : (resizedEntrySet s off newSize).readLe64 (off + 56) =
            ((s.write (off + 40) (le64 newSize)).write (off + 56) (le64 newSize)).readLe64 (off + 56) :=
          Buf.readLe64_congr fun i inField => by
            rw [resizedEntrySet, get_sealEntrySet (by omega)]
        rw [same, Buf.readLe64_write_self (by omega), Nat.mod_eq_of_lt small]
      nameMark := (kept (by omega)).trans set.nameMark
      chars := fun i inName => by
        have chars := set.chars i inName
        rw [Nat.add_assoc, Nat.add_assoc] at chars ⊢
        exact ⟨(kept (by omega)).trans chars.1, (kept (by omega)).trans chars.2⟩
      checksum := readLe16_sealEntrySet inside }

theorem SetAt.rename (newName : Bytes) : SetAt (renamedEntrySet s off newName) off newName first size := by
  have kept {i : Nat} (here : i < 2 ∨ 4 ≤ i ∧ i < 35 ∨ 38 ≤ i ∧ i < 64) :
      (renamedEntrySet s off newName).get (off + i) = s.get (off + i) := by
    rw [renamedEntrySet, get_sealEntrySet (by omega),
      Buf.get_write_outside (by rw [length_exfatNameEntry]; omega),
      Buf.get_write_outside (by rw [length_le16]; omega), Buf.get_set_other (by omega)]
  have named := nameChars (renamedEntrySet s off newName) (off + 64)
    fun i small => by
      rw [renamedEntrySet, get_sealEntrySet (by omega),
        Buf.get_write_inside (by omega) (by rw [length_exfatNameEntry]; omega)]
  exact
    { fileMark := (kept (i := 0) (by omega)).trans set.fileMark
      secondaries := (kept (by omega)).trans set.secondaries
      streamMark := (kept (by omega)).trans set.streamMark
      flags := (kept (by omega)).trans set.flags
      nameLength := by
        rw [renamedEntrySet, get_sealEntrySet (by omega),
          Buf.get_write_outside (by omega), Buf.get_write_outside (by omega),
          Buf.get_set_self (by omega)]
      firstCluster := by
        rw [← set.firstCluster]
        exact Buf.readLe32_congr fun i inField => by
          rw [Nat.add_assoc]
          exact kept (by omega)
      size := by
        rw [← set.size]
        exact Buf.readLe64_congr fun i inField => by
          rw [Nat.add_assoc]
          exact kept (by omega)
      nameMark := named.1
      chars := named.2
      checksum := readLe16_sealEntrySet inside }

end Edit

end TangPingOS
