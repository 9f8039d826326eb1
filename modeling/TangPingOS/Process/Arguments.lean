import TangPingOS.Memory.Room
import TangPingOS.Process.Loading
import TangPingOS.Process.Usercopy

/-! # The arguments of a program

`build_initial_user_stack` splits the argument string into words, pushes the path and the words on
the user stack and below them the array of their addresses. Everything is pushed downwards, so what
is already there stays: that is the invariant of both loops.
-/

namespace TangPingOS

open Lib

variable {bytes p : Bytes} {values : List Bytes} {ptrs : List Nat} {k k' : Machine}
  {addr count cr3Phys flags page r sp : Nat} {roots : Nat → Prop} {panic : Panic}

def argWords (args : Bytes) : List Bytes := (args.splitOn 0x20).filter (· ≠ [])

theorem argWords_nil : argWords [] = [] := rfl

theorem argWords_space : argWords (0x20 :: p) = argWords p := by
  rw [argWords, List.splitOn_eq_splitOnP, List.splitOnP_cons_eq_if_modifyHead, if_pos (by decide)]
  rfl

theorem argWords_dropSpaces : argWords (p.dropWhile (· == 0x20)) = argWords p := by
  induction p with
  | nil => rfl
  | cons b rest ih =>
    by_cases space : b = 0x20
    · rw [List.dropWhile_cons_of_pos (by simpa using space), ih, space, argWords_space]
    · rw [List.dropWhile_cons_of_neg (by simpa using space)]

/-- The first word of a string that does not start with a space. -/
theorem argWords_word (some_ : p ≠ []) (start : p.head? ≠ some 0x20) :
    p.takeWhile (· != 0x20) ≠ [] ∧
      argWords p = p.takeWhile (· != 0x20) :: argWords (p.drop (p.takeWhile (· != 0x20)).length) := by
  have split := List.takeWhile_append_dropWhile (p := (· != (0x20 : UInt8))) (l := p)
  generalize isWord : p.takeWhile (· != 0x20) = word at *
  generalize isRest : p.dropWhile (· != 0x20) = rest at *
  have nonempty : word ≠ [] := by
    cases p with
    | nil => exact absurd rfl some_
    | cons b p =>
      rw [← isWord, List.takeWhile_cons_of_pos (by simpa using start)]
      exact List.cons_ne_nil _ _
  have free : ∀ b ∈ word, (b == (0x20 : UInt8)) = false := by
    intro b mem
    have all := List.all_takeWhile (p := (· != (0x20 : UInt8))) (l := p)
    rw [isWord, List.all_eq_true] at all
    simpa using all b mem
  refine ⟨nonempty, ?_⟩
  rw [← split, List.drop_left, argWords, List.splitOn_eq_splitOnP]
  cases rest with
  | nil =>
    rw [List.append_nil, List.splitOnP_eq_singleton free]
    simp [nonempty, argWords_nil]
  | cons b rest =>
    have space : b = 0x20 := by
      have stops := List.head?_dropWhile_not (· != (0x20 : UInt8)) p
      rw [isRest] at stops
      simpa using stops
    rw [space, List.splitOnP_append_cons_of_forall_mem free _ (by decide), argWords_space]
    simp [nonempty, argWords, List.splitOn_eq_splitOnP]

theorem parseSpawnWords_eq (enough : p.length < rounds) (room : values.length ≤ userArgvMax) :
    parseSpawnWords rounds values p =
      if values.length + (argWords p).length ≤ userArgvMax ∧ ∀ word ∈ argWords p, word.length < userArgMax then
        some (values ++ argWords p)
      else none := by
  induction rounds generalizing values p with
  | zero => omega
  | succ rounds ih =>
    rw [parseSpawnWords, ← argWords_dropSpaces]
    have shorter : (p.dropWhile (· == 0x20)).length ≤ p.length := (List.dropWhile_sublist _).length_le
    have start := List.head?_dropWhile_not (· == (0x20 : UInt8)) p
    generalize p.dropWhile (· == 0x20) = q at *
    dsimp only
    split
    · rename_i empty
      rw [empty, argWords_nil, List.append_nil, if_pos ⟨by simpa using room, nofun⟩]
    · rename_i some_
      have noSpace : q.head? ≠ some 0x20 := by
        intro isSpace
        rw [isSpace] at start
        simp at start
      obtain ⟨nonempty, isWord⟩ := argWords_word some_ noSpace
      have length := List.length_pos_iff.mpr nonempty
      have within : (q.takeWhile (· != 0x20)).length ≤ q.length := (List.takeWhile_sublist _).length_le
      generalize q.takeWhile (· != 0x20) = word at *
      rw [isWord, List.length_cons]
      split
      · rw [if_neg (by omega)]
      · split
        · rw [if_neg]
          intro fits
          have := fits.2 word List.mem_cons_self
          omega
        · rename_i few short
          have left : (q.drop word.length).length < rounds := by
            rw [List.length_drop]
            omega
          rw [ih left (by rw [List.length_append, List.length_singleton]; omega), List.append_assoc]
          simp only [List.length_append, List.length_singleton, List.forall_mem_cons, List.singleton_append]
          have isShort : word.length < userArgMax := by omega
          simp [isShort, Nat.add_assoc, Nat.add_comm 1]

/-- `parse_spawn_args` finds the path and the words, or refuses what does not fit. -/
theorem parseSpawnArgs_eq :
    parseSpawnArgs path args =
      if path.length ≤ 63 ∧ (argWords args).length ≤ 7 ∧ ∀ word ∈ argWords args, word.length ≤ 63 then
        some (path :: argWords args)
      else none := by
  have most : userArgMax = 64 ∧ userArgvMax = 8 := ⟨rfl, rfl⟩
  unfold parseSpawnArgs
  by_cases long : userArgMax < path.length + 1
  · rw [if_pos long, if_neg (by omega)]
  · rw [if_neg long, parseSpawnWords_eq (Nat.lt_succ_self _) (by rw [List.length_singleton]; decide)]
    congr 1
    apply propext
    rw [List.length_singleton, most.1, most.2]
    constructor
    · intro fits
      exact ⟨by omega, by omega, fun word mem => Nat.le_of_lt_succ (fits.2 word mem)⟩
    · intro fits
      exact ⟨by omega, fun word mem => Nat.lt_succ_of_le (fits.2.2 word mem)⟩

def Machine.userByte (k : Machine) (cr3Phys addr : Nat) : Option UInt8 :=
  (vmmTranslateUserAddr cr3Phys addr false k).map k.byteAt

def UserHolds (cr3Phys addr : Nat) (bytes : Bytes) (k : Machine) : Prop :=
  ∀ i < bytes.length, k.userByte cr3Phys (addr + i) = some (bytes.getD i 0)

/-- `count` bytes of the user stack. -/
def InStack (addr count : Nat) : Prop := userStackTop - userStackSize ≤ addr ∧ addr + count ≤ userStackTop

theorem UserHolds.append (low : UserHolds cr3Phys addr first k)
    (high : UserHolds cr3Phys (addr + first.length) second k) : UserHolds cr3Phys addr (first ++ second) k := by
  intro i inside
  rw [List.length_append] at inside
  by_cases near : i < first.length
  · rw [low i near, List.getD_append _ _ _ _ near]
  · have far := high (i - first.length) (by omega)
    rw [Nat.add_assoc, Nat.add_sub_cancel' (by omega)] at far
    rw [far, List.getD_append_right _ _ _ _ (by omega)]

theorem UserHolds.congr (holds : UserHolds cr3Phys addr bytes k)
    (same : ∀ i < bytes.length, k'.userByte cr3Phys (addr + i) = k.userByte cr3Phys (addr + i)) :
    UserHolds cr3Phys addr bytes k' := by
  intro i inside
  rw [same i inside, holds i inside]

/-- A stack that can be written, every byte of it apart from the others and from the tables. -/
structure StackReady (cr3Phys : Nat) (k : Machine) : Prop where
  hidden : TablesHidden cr3Phys k
  writable : ∀ addr, InStack addr 1 → ∃ phys, vmmTranslateUserAddr cr3Phys addr true k = some phys
  apart : ∀ a b phys, InStack a 1 → InStack b 1 → vmmTranslateUserAddr cr3Phys a true k = some phys →
    vmmTranslateUserAddr cr3Phys b true k = some phys → a = b

namespace StackReady

theorem congr (ready : StackReady cr3Phys k) (same : SameTables cr3Phys k k') : StackReady cr3Phys k' where
  hidden := ready.hidden.congr same
  writable addr inside := by
    rw [same.translate]
    exact ready.writable addr inside
  apart a b phys insideA insideB := by
    rw [same.translate, same.translate]
    exact ready.apart a b phys insideA insideB

/-- A copy to the stack: the bytes are there, and the rest of the stack is as before. -/
theorem copy (ready : StackReady cr3Phys k) {addr src} (inside : InStack addr src.length) :
    ∃ k', copyToUserInSpace cr3Phys addr src k = (true, k') ∧ StackReady cr3Phys k' ∧ UserHolds cr3Phys addr src k' ∧
      ∀ a, InStack a 1 → (a < addr ∨ addr + src.length ≤ a) → k'.userByte cr3Phys a = k.userByte cr3Phys a := by
  unfold copyToUserInSpace
  by_cases empty : src.length = 0
  · rw [if_pos empty]
    exact ⟨k, rfl, ready, fun i low => by omega, fun _ _ _ => rfl⟩
  have each (i : Nat) (low : i < src.length) : InStack (addr + i) 1 :=
    ⟨by have := inside.1; omega, by have := inside.2; omega⟩
  have valid : userRangeValid addr src.length := by
    obtain ⟨above, below⟩ := inside
    have limits : userAddressMin ≤ userStackTop - userStackSize ∧ userStackTop ≤ userAddressMax := by decide
    unfold userRangeValid
    rw [if_neg empty, if_neg (by omega)]
    exact decide_eq_true (by omega)
  rw [if_neg empty, if_neg (by simp [valid])]
  have copied := @copyToUserPages_spec cr3Phys src.length addr src k ready.hidden (Nat.le_refl _)
  have done : (copyToUserPages cr3Phys src.length addr src k).1 := by
    apply copied.done.mpr
    intro i low
    obtain ⟨phys, found⟩ := ready.writable _ (each i low)
    rw [found]
    rfl
  have same := copied.tables ready.hidden
  generalize copyToUserPages cr3Phys src.length addr src k = result at *
  obtain ⟨ok, k'⟩ := result
  cases done
  refine ⟨k', rfl, ready.congr same, ?_, ?_⟩
  · intro i low
    obtain ⟨phys, found⟩ := ready.writable _ (each i low)
    have unaliased : Unaliased cr3Phys addr src.length k := by
      intro a lowA b lowB q foundA foundB
      have equal := ready.apart _ _ q (each a lowA) (each b lowB) foundA foundB
      omega
    rw [Machine.userByte, same.translate, vmmTranslateUserAddr_read found, Option.map_some,
      copied.here rfl unaliased i low phys found]
  · intro a inA outside
    obtain ⟨phys, found⟩ := ready.writable a inA
    have other : k'.byteAt phys = k.byteAt phys := by
      apply copied.other
      intro i low again
      have equal := ready.apart _ _ phys (each i low) inA again found
      omega
    rw [Machine.userByte, Machine.userByte, same.translate, vmmTranslateUserAddr_read found, Option.map_some,
      Option.map_some, other]

end StackReady

/-- NUL-terminated strings, one behind the other from `sp` to the top of the stack. -/
inductive Placed (cr3Phys : Nat) (k : Machine) : Nat → List Nat → List Bytes → Prop
  | nil : Placed cr3Phys k userStackTop [] []
  | cons {sp : Nat} {value : Bytes} {ptrs : List Nat} {values : List Bytes} :
    Placed cr3Phys k (sp + (value.length + 1)) ptrs values → UserHolds cr3Phys sp (value ++ [0]) k →
      Placed cr3Phys k sp (sp :: ptrs) (value :: values)

def stringsSize : List Bytes → Nat
  | [] => 0
  | value :: rest => (value.length + 1) + stringsSize rest

theorem stringsSize_append : stringsSize (first ++ second) = stringsSize first + stringsSize second := by
  induction first with
  | nil => simp [stringsSize]
  | cons value rest ih =>
    rw [List.cons_append, stringsSize, stringsSize, ih]
    omega

theorem stringsSize_reverse : stringsSize values.reverse = stringsSize values := by
  induction values with
  | nil => rfl
  | cons value rest ih =>
    rw [List.reverse_cons, stringsSize_append, ih, stringsSize, stringsSize, stringsSize]
    omega

theorem stringsSize_le (short : ∀ value ∈ values, value.length + 1 ≤ most) :
    stringsSize values ≤ most * values.length := by
  induction values with
  | nil => exact Nat.le_refl _
  | cons value rest ih =>
    rw [List.forall_mem_cons] at short
    rw [stringsSize, List.length_cons, Nat.mul_succ]
    have := ih short.2
    omega

namespace Placed

variable (placed : Placed cr3Phys k sp ptrs values)

include placed

theorem size : sp + stringsSize values = userStackTop := by
  induction placed with
  | nil => rfl
  | cons _ _ ih =>
    rw [stringsSize]
    omega

theorem congr (same : ∀ a, sp ≤ a → a < userStackTop → k'.userByte cr3Phys a = k.userByte cr3Phys a) :
    Placed cr3Phys k' sp ptrs values := by
  induction placed with
  | nil => exact .nil
  | cons rest holds ih =>
    have size := rest.size
    refine .cons (ih fun a low high => same a (by omega) high) (holds.congr fun i low => same _ (by omega) ?_)
    rw [List.length_append, List.length_singleton] at low
    omega

theorem holds : List.Forall₂ (fun ptr value => UserHolds cr3Phys ptr (value ++ [0]) k) ptrs values := by
  induction placed with
  | nil => exact .nil
  | cons _ here ih => exact .cons here ih

theorem length : ptrs.length = values.length := placed.holds.length_eq

end Placed

def stringAreas (ptrs : List Nat) (values : List Bytes) : List (Nat × Nat) :=
  List.zipWith (fun ptr value => (ptr, value.length + 1)) ptrs values

def AreasApart (a b : Nat × Nat) : Prop := a.1 + a.2 ≤ b.1 ∨ b.1 + b.2 ≤ a.1

theorem Placed.areas (placed : Placed cr3Phys k sp ptrs values) :
    (stringAreas ptrs values).Pairwise AreasApart ∧
      ∀ area ∈ stringAreas ptrs values, sp ≤ area.1 ∧ area.1 + area.2 ≤ userStackTop := by
  induction placed with
  | nil => exact ⟨.nil, nofun⟩
  | cons rest _ ih =>
    have size := rest.size
    obtain ⟨apart, inside⟩ := ih
    rw [stringAreas, List.zipWith_cons_cons, List.pairwise_cons, List.forall_mem_cons]
    refine ⟨⟨fun area mem => .inl (inside area mem).1, apart⟩, ⟨Nat.le_refl _, ?_⟩, fun area mem => ?_⟩
    · dsimp only
      omega
    · have := inside area mem
      omega

theorem pushStrings_spec {cr3Phys sp k ptrs rest done} (ready : StackReady cr3Phys k)
    (placed : Placed cr3Phys k sp ptrs done) (room : userStackTop - userStackSize + stringsSize rest ≤ sp) :
    ∃ k' ptrs', pushStrings cr3Phys rest sp ptrs k = (some (sp - stringsSize rest, ptrs'), k') ∧
      StackReady cr3Phys k' ∧ Placed cr3Phys k' (sp - stringsSize rest) ptrs' (rest.reverse ++ done) := by
  induction rest generalizing sp k ptrs done with
  | nil => exact ⟨k, ptrs, rfl, ready, placed⟩
  | cons value rest ih =>
    have size := placed.size
    rw [stringsSize] at room
    have length : (value ++ [0]).length = value.length + 1 := List.length_append
    have inside : InStack (sp - (value.length + 1)) (value ++ [0]).length := ⟨by omega, by omega⟩
    obtain ⟨k₁, copied, ready₁, holds, others⟩ := ready.copy inside
    rw [length] at others
    have restored : sp - (value.length + 1) + (value.length + 1) = sp := by omega
    have placed₁ : Placed cr3Phys k₁ sp ptrs done := by
      apply placed.congr
      intro a low high
      exact others a ⟨by omega, by omega⟩ (.inr (by omega))
    obtain ⟨k', ptrs', pushed, ready', placed'⟩ := ih ready₁ (.cons (restored ▸ placed₁) holds) (by omega)
    rw [Nat.sub_sub] at pushed placed'
    refine ⟨k', ptrs', ?_, ready', ?_⟩
    · simp only [pushStrings, copied, pushed, stringsSize]
    · rw [stringsSize, List.reverse_cons, List.append_assoc]
      exact placed'

theorem pushWords_spec {cr3Phys sp k words bytes}
    (ready : StackReady cr3Phys k) (holds : UserHolds cr3Phys sp bytes k)
    (room : userStackTop - userStackSize + 8 * words.length ≤ sp) (top : sp + bytes.length ≤ userStackTop) :
    ∃ k', pushWords cr3Phys words sp k = (some (sp - 8 * words.length), k') ∧ StackReady cr3Phys k' ∧
      UserHolds cr3Phys (sp - 8 * words.length) (words.reverse.flatMap le64 ++ bytes) k' ∧
      ∀ a, sp ≤ a → a < userStackTop → k'.userByte cr3Phys a = k.userByte cr3Phys a := by
  induction words generalizing sp k bytes with
  | nil => exact ⟨k, rfl, ready, holds, fun _ _ _ => rfl⟩
  | cons word rest ih =>
    rw [List.length_cons, Nat.mul_succ] at room
    obtain ⟨k₁, copied, ready₁, here, others⟩ := @StackReady.copy _ _ ready (sp - 8) (le64 word)
      (by rw [length_le64]; exact ⟨by omega, by omega⟩)
    rw [length_le64] at others
    have restored : sp - 8 + 8 = sp := by omega
    have holds₁ : UserHolds cr3Phys sp bytes k₁ := by
      apply holds.congr
      intro i low
      exact others _ ⟨by omega, by omega⟩ (.inr (by omega))
    have both : UserHolds cr3Phys (sp - 8) (le64 word ++ bytes) k₁ := by
      apply here.append
      rw [length_le64, restored]
      exact holds₁
    obtain ⟨k', pushed, ready', all, above⟩ := ih ready₁ both (by omega)
      (by rw [List.length_append, length_le64]; omega)
    rw [Nat.sub_sub, Nat.add_comm 8] at pushed all
    refine ⟨k', ?_, ready', ?_, ?_⟩
    · simp [pushWords, copied, pushed, Nat.mul_succ]
    · rw [List.length_cons, Nat.mul_succ, List.reverse_cons, List.flatMap_append, List.append_assoc]
      simpa only [List.flatMap_cons, List.flatMap_nil, List.append_nil] using all
    · intro a low high
      rw [above a (by omega) high]
      exact others a ⟨by omega, by omega⟩ (.inr (by omega))

theorem mapFreshPages_spec (filled : Filled roots k) (root : roots r) (aligned : page % pageSize = 0)
    (low : page + count * pageSize ≤ userVirtMax) (combination : IsVmmFlags flags)
    (user : anyBit flags vmmFlagUser) (ran : mapFreshPages (r * pageSize) flags panic count page k = .ok k') :
    Filled roots k' ∧ (∀ vp < userPages, ¬ (page / pageSize ≤ vp ∧ vp < page / pageSize + count) →
      k'.space r vp = k.space r vp) ∧
    ∀ vp, page / pageSize ≤ vp → vp < page / pageSize + count → ∃ phys, k'.space r vp = some (pageEntry phys flags) := by
  induction count generalizing page k with
  | zero =>
    cases ran
    exact ⟨filled, fun _ _ _ => rfl, fun vp low high => by omega⟩
  | succ count ih =>
    rw [mapFreshPages] at ran
    obtain ⟨⟨phys, k₁⟩, allocated, ran⟩ := bind_eq_ok ran
    obtain ⟨⟨done, k₂⟩, mapped, ran⟩ := bind_eq_ok ran
    have below : page < userVirtMax := by
      simp only [pageSize] at low
      omega
    obtain ⟨isDone, added⟩ := filled.add root below aligned combination user allocated (.refl _ _) mapped
    subst isDone
    dsimp only at ran
    rw [if_pos rfl] at ran
    have next : (page + pageSize) / pageSize = page / pageSize + 1 := Nat.add_div_right page (by decide)
    obtain ⟨filled', elsewhere, here⟩ := ih added.filled
      (by rw [Nat.add_mod_right]; exact aligned) (by rw [Nat.succ_mul] at low; omega) ran
    rw [next] at elsewhere here
    have first := page_lt below
    refine ⟨filled', ?_, ?_⟩
    · intro vp lowVp outside
      rw [elsewhere vp lowVp (by omega)]
      exact added.elsewhere r vp root lowVp (fun same => outside ⟨by omega, by omega⟩)
    · intro vp from_ until_
      by_cases isFirst : vp = page / pageSize
      · refine ⟨phys, ?_⟩
        rw [isFirst, elsewhere _ first (by omega)]
        exact added.here
      · exact here vp (by omega) (by omega)

theorem permits_userData : permits true (pageEntry phys userDataFlags) := by
  have user : anyBit (pageEntry phys userDataFlags) pteUser = anyBit userDataFlags pteUser :=
    anyBit_pageEntry (by decide) (by decide) (by decide) (by decide) (by decide)
  have writable : anyBit (pageEntry phys userDataFlags) pteWritable = anyBit userDataFlags pteWritable :=
    anyBit_pageEntry (by decide) (by decide) (by decide) (by decide) (by decide)
  rw [permits, user, writable]
  decide

/-- The stack is ready once `map_user_stack` has mapped it. -/
theorem mapUserStack_ready (filled : Filled roots k) (root : roots r)
    (ran : mapUserStack (r * pageSize) k = .ok k') : StackReady (r * pageSize) k' := by
  obtain ⟨filled', -, pages⟩ := mapFreshPages_spec filled root (by decide) (by decide)
    (by decide) (by decide) ran
  have below {addr : Nat} (inside : InStack addr 1) : addr < userVirtMax := by
    have top : userStackTop ≤ userVirtMax := by decide
    have := inside.2
    omega
  have mapped {addr : Nat} (inside : InStack addr 1) :
      ∃ phys, k'.space r (addr / pageSize) = some (pageEntry phys userDataFlags) := by
    obtain ⟨above, under⟩ := inside
    simp only [userStackTop, userStackSize, pageSize] at above under pages ⊢
    exact pages _ (by omega) (by omega)
  have target {addr : Nat} (inside : InStack addr 1) : ∃ entry, k'.space r (addr / pageSize) = some entry ∧
      vmmTranslateUserAddr (r * pageSize) addr true k' = some (entryPage entry * pageSize + addr % pageSize) := by
    obtain ⟨phys, found⟩ := mapped inside
    refine ⟨_, found, ?_⟩
    rw [filled'.tables.vmmTranslateUserAddr_space root (below inside), found, Option.bind_some,
      if_pos permits_userData]
  refine ⟨filled'.hidden root, ?_, ?_⟩
  · intro addr inside
    obtain ⟨entry, -, found⟩ := target inside
    exact ⟨_, found⟩
  · intro a b phys insideA insideB foundA foundB
    obtain ⟨entryA, spaceA, isA⟩ := target insideA
    obtain ⟨entryB, spaceB, isB⟩ := target insideB
    have same := Option.some.inj ((isA.symm.trans foundA).trans (foundB.symm.trans isB))
    simp only [pageSize] at same
    have samePage : entryPage entryA = entryPage entryB := by omega
    have place := filled'.once r r _ _ entryA entryB root root (page_lt (below insideA)) (page_lt (below insideB))
      spaceA spaceB samePage
    have := place.2
    simp only [pageSize] at this
    omega

theorem buildAddressSpace_ready
    (built : buildAddressSpace image k₀ = .ok (cr3Phys, loaded, k)) : StackReady cr3Phys k := by
  unfold buildAddressSpace at built
  obtain ⟨⟨cr3, k₁⟩, created, built⟩ := bind_eq_ok built
  obtain ⟨⟨program, k₂⟩, isLoaded, built⟩ := bind_eq_ok built
  obtain ⟨k₃, mapped, last⟩ := bind_eq_ok built
  cases last
  obtain ⟨page, -, -, isPage, -⟩ := vmmCreateAddressSpace_ok created
  subst isPage
  obtain ⟨filled, -⟩ := Filled.empty.create created
  obtain ⟨-, filled₂, -⟩ := loadElfImage_spec filled (.inr rfl) isLoaded
  exact mapUserStack_ready filled₂ (.inr rfl) mapped

/-- The arguments of a program arrive as they were given, whenever they fit. -/
theorem arguments_arrive {image : Bytes} {k₀ k : Machine} {cr3Phys : Nat} {loaded : UserImage}
    (built : buildAddressSpace image k₀ = .ok (cr3Phys, loaded, k)) (path args : Bytes) :
    let (result, k') := buildInitialUserStack cr3Phys path args k
    (result.isSome ↔
      path.length ≤ 63 ∧ (argWords args).length ≤ 7 ∧ ∀ word ∈ argWords args, word.length ≤ 63) ∧
    ∀ stack, result = some stack → stack.argc = 1 + (argWords args).length ∧ ∃ ptrs : List Nat,
      UserHolds cr3Phys stack.argv ((ptrs ++ [0]).flatMap le64) k' ∧
      List.Forall₂ (fun ptr value => UserHolds cr3Phys ptr (value ++ [0]) k') ptrs (path :: argWords args) ∧
      ((stack.argv, 8 * (stack.argc + 1)) :: stringAreas ptrs (path :: argWords args)).Pairwise AreasApart ∧
      ∀ area ∈ (stack.argv, 8 * (stack.argc + 1)) :: stringAreas ptrs (path :: argWords args), InStack area.1 area.2 := by
  have ready := buildAddressSpace_ready built
  unfold buildInitialUserStack
  rw [parseSpawnArgs_eq]
  by_cases fits : path.length ≤ 63 ∧ (argWords args).length ≤ 7 ∧ ∀ word ∈ argWords args, word.length ≤ 63
  · rw [if_pos fits]
    generalize isValues : path :: argWords args = values
    have few : values.length = 1 + (argWords args).length := by
      rw [← isValues, List.length_cons, Nat.add_comm]
    have short : ∀ value ∈ values, value.length + 1 ≤ 64 := by
      rw [← isValues, List.forall_mem_cons]
      exact ⟨by omega, fun word mem => Nat.succ_le_succ (fits.2.2 word mem)⟩
    have small := stringsSize_le short
    have wide : userStackSize = 65536 ∧ userStackSize ≤ userStackTop := ⟨rfl, by decide⟩
    obtain ⟨k₁, ptrs, pushed, ready₁, placed⟩ := @pushStrings_spec _ _ _ _ values.reverse _ ready .nil
      (by rw [stringsSize_reverse]; omega)
    rw [stringsSize_reverse] at pushed placed
    rw [List.reverse_reverse, List.append_nil] at placed
    have count := placed.length
    have size := placed.size
    generalize userStackTop - stringsSize values = sp at *
    have aligned : alignDown sp 16 ≤ sp ∧ sp < alignDown sp 16 + 16 := by
      unfold alignDown
      omega
    generalize isBase : alignDown sp 16 = base at *
    obtain ⟨k₂, words, -, holds, others⟩ := @pushWords_spec _ base _ (0 :: ptrs.reverse) [] ready₁
      (fun i low => absurd low (Nat.not_lt_zero i)) (by rw [List.length_cons, List.length_reverse]; omega)
      (by rw [List.length_nil]; omega)
    rw [List.length_cons, List.length_reverse, List.reverse_cons, List.reverse_reverse, List.append_nil] at *
    simp only [pushed, isBase, words]
    refine ⟨iff_of_true rfl fits, ?_⟩
    rintro stack ⟨rfl⟩
    have placed₂ := placed.congr fun a low high => others a (by omega) high
    obtain ⟨apart, inside⟩ := placed₂.areas
    refine ⟨few, ptrs, holds, placed₂.holds, ?_, ?_⟩
    · rw [List.pairwise_cons]
      refine ⟨fun area mem => .inl ?_, apart⟩
      have := (inside area mem).1
      dsimp only
      omega
    · rw [List.forall_mem_cons]
      refine ⟨⟨?_, ?_⟩, fun area mem => ?_⟩
      · dsimp only
        omega
      · dsimp only
        omega
      · obtain ⟨above, below⟩ := inside area mem
        exact ⟨by omega, below⟩
  · rw [if_neg fits]
    exact ⟨iff_of_false Bool.false_ne_true fits, nofun⟩

theorem Room.freshPages {n count page cr3Phys flags panic k} (room : Room (n + 4 * count) k)
    (aligned : page % pageSize = 0) : ∃ k', mapFreshPages cr3Phys flags panic count page k = .ok k' ∧ Room n k' := by
  induction count generalizing page k with
  | zero => exact ⟨k, rfl, room⟩
  | succ count ih =>
    obtain ⟨phys, k₁, allocated, physOk, room₁⟩ := @Room.alloc (n + 4 * count + 3) k room
    obtain ⟨k₂, mapped, room₂⟩ := room₁.mapPageIn aligned physOk cr3Phys flags
    have nextOk : (page + pageSize) % pageSize = 0 := by
      rw [Nat.add_mod_right]
      exact aligned
    obtain ⟨k', rest, room'⟩ := ih room₂ nextOk
    refine ⟨k', ?_, room'⟩
    rw [mapFreshPages, allocated]
    simp [bind, Except.bind, mapped, rest]

def emptyProgram : Bytes := elfFile [⟨2, 0, 0, 0, 0, 0⟩]

def mediumMemmap : List MemmapEntry := [⟨0, 4096, 1⟩, ⟨4096, 327680, 0⟩]

/-- The program `a` with the arguments `b` and `c`. -/
theorem arguments_arrive_three : ∃ cr3Phys loaded k,
    buildAddressSpace emptyProgram (memoryInit mediumMemmap blankMachine) = .ok (cr3Phys, loaded, k) ∧
    ∃ stack, (buildInitialUserStack cr3Phys [0x61] [0x62, 0x20, 0x20, 0x63] k).1 = some stack ∧ stack.argc = 3 := by
  have room : Room 65 (memoryInit mediumMemmap blankMachine) := by
    have ok := @pmmOk_memoryInit mediumMemmap (by decide) blankMachine
    refine ⟨_, ok, ?_⟩
    rw [← ok.count]
    decide +kernel
  obtain ⟨cr3Phys, k₁, created, room₁⟩ := @Room.createAddressSpace 64 _ room
  obtain ⟨k, mapped, -⟩ := @Room.freshPages 0 16 (userStackTop - userStackSize) cr3Phys userDataFlags .mapUserStack k₁
    room₁ (by decide)
  have valid : validateElfHeader emptyProgram = .ok () := by decide +kernel
  have headers : programHeaders emptyProgram = [⟨2, 0, 0, 0, 0, 0⟩] := rfl
  have isLoaded : loadElfImage emptyProgram cr3Phys k₁ = .ok (⟨(readEhdr emptyProgram).entry, 0⟩, k₁) := by
    unfold loadElfImage
    rw [valid, headers]
    rfl
  have built : buildAddressSpace emptyProgram (memoryInit mediumMemmap blankMachine)
      = .ok (cr3Phys, ⟨(readEhdr emptyProgram).entry, 0⟩, k) := by
    unfold buildAddressSpace mapUserStack
    rw [created]
    simp only [bind, Except.bind, isLoaded, mapped]
    rfl
  refine ⟨_, _, _, built, ?_⟩
  have arrive := arguments_arrive built [0x61] [0x62, 0x20, 0x20, 0x63]
  obtain ⟨stack, isStack⟩ := Option.isSome_iff_exists.mp (arrive.1.mpr (by decide +kernel))
  exact ⟨stack, isStack, (arrive.2 stack isStack).1⟩

end TangPingOS
