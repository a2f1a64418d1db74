import Mathlib.Tactic.IntervalCases
import Rvm.Foundation.BitField
import Rvm.Foundation.Slots
import Rvm.Hal.Stage2

/-!
Owns the agreement of the stage-2 page table with a plain map of blocks: what the
masks read of an address, what each operation does to the map, and the runs in which
no mask drops a bit.
-/

namespace Rvm.Hal

open Foundation Foundation.Call Vector Option

/-! ### Words -/

def blockNumber (ipa : BitVec 64) : Nat := ipa.toNat / 2 ^ 21 % 2 ^ 18

theorem blockNumber_lt (ipa : BitVec 64) : blockNumber ipa < 2 ^ 18 :=
  Nat.mod_lt _ (Nat.two_pow_pos 18)

theorem l1Index_eq (ipa : BitVec 64) : l1Index ipa = blockNumber ipa / 512 := by
  rw [l1Index, @field_toNat _ _ _ 9 _ rfl, blockNumber]
  omega

theorem l2Index_eq (ipa : BitVec 64) : l2Index ipa = blockNumber ipa % 512 := by
  rw [l2Index, @field_toNat _ _ _ 9 _ rfl, blockNumber]
  omega

theorem low_eq_zero (ipa : BitVec 64) : ipa &&& (l2BlockSize - 1) = 0 ↔ ipa.toNat % 2 ^ 21 = 0 := by
  rw [← BitVec.toNat_inj, @low_toNat _ _ 21 _ rfl]
  rfl

def addressMask : BitVec 64 := 0x0000FFFFFFE00000#64

theorem or_valid (word : BitVec 64) : (word ||| S2Desc.valid) &&& S2Desc.valid ≠ 0 := by
  show _ ≠ 0#64
  rw [@and_bit_ne_zero _ _ 0 S2Desc.valid rfl, BitVec.toNat_or, Nat.testBit_or]
  exact Bool.or_true _

theorem descriptor_address (pa : BitVec 64) {attrs : BitVec 64}
    (outside : attrs &&& addressMask = 0#64) :
    ((pa &&& addressMask) ||| attrs ||| S2Desc.af ||| S2Desc.valid) &&& addressMask =
      pa &&& addressMask := by
  have af : S2Desc.af &&& addressMask = 0#64 := by decide
  have valid : S2Desc.valid &&& addressMask = 0#64 := by decide
  simp only [BitVec.and_or_distrib_right, outside, af, valid, BitVec.and_assoc, BitVec.and_self,
    BitVec.or_zero]

namespace Stage2PageTable

theorem stashed_descriptor (address : BitVec 64) {table : Nat} (inPool : table < 4) :
    stashed ((address &&& 0x0000FFFFFFFFF000#64) ||| S2Desc.table ||| S2Desc.valid |||
      BitVec.ofNat 64 table <<< 56) = table := by
  have low : ∀ word : BitVec 64, (word &&& 0x0000FFFFFFFFF000#64) >>> 56 = 0#64 := by
    intro word
    rw [BitVec.ushiftRight_and_distrib]
    exact BitVec.and_zero
  have split : ((address &&& 0x0000FFFFFFFFF000#64) ||| S2Desc.table ||| S2Desc.valid |||
      BitVec.ofNat 64 table <<< 56) >>> 56 = (BitVec.ofNat 64 table <<< 56) >>> 56 := by
    simp only [BitVec.ushiftRight_or_distrib, low]
    exact BitVec.zero_or
  rw [stashed, split]
  interval_cases table <;> rfl

theorem descriptor_valid (address : BitVec 64) (table : Nat) :
    ((address &&& 0x0000FFFFFFFFF000#64) ||| S2Desc.table ||| S2Desc.valid |||
      BitVec.ofNat 64 table <<< 56) &&& S2Desc.valid ≠ 0 := by
  rw [BitVec.or_assoc, BitVec.or_comm S2Desc.valid, ← BitVec.or_assoc]
  exact or_valid _

/-! ### The tables as a map of blocks -/

def tableOf (here : Stage2PageTable) (index : Nat) : Option Nat :=
  here.l1Table[index]?.bind fun entry =>
    if entry &&& S2Desc.valid = 0 then none else some (stashed entry)

def entryOf (here : Stage2PageTable) (table index : Nat) : Option (BitVec 64) :=
  here.l2Tables[table]?.bind fun entries => entries[index]?

def hostOf (entry : BitVec 64) : Option Nat :=
  if entry &&& S2Desc.valid = 0 then none else some (entry &&& addressMask).toNat

def blockAt (here : Stage2PageTable) (block : Nat) : Option Nat :=
  (here.tableOf (block / 512)).bind fun table => (here.entryOf table (block % 512)).bind hostOf

/-- Level-1 entries share no level-2 table. -/
structure Linked (here : Stage2PageTable) : Prop where
  room : here.nextL2 ≤ 4
  inUse : ∀ index table, here.tableOf index = some table → table < here.nextL2
  distinct : ∀ left right table, here.tableOf left = some table → here.tableOf right = some table →
    left = right

variable {here next : Stage2PageTable} {table index block : Nat}

theorem tableOf_new (index : Nat) : new.tableOf index = none := by
  unfold tableOf new
  rw [getElem?_replicate]
  split <;> rfl

theorem new_linked : new.Linked where
  room := Nat.zero_le 4
  inUse index table found := by
    rw [tableOf_new] at found
    cases found
  distinct left right table found _ := by
    rw [tableOf_new] at found
    cases found

theorem blockAt_new (block : Nat) : new.blockAt block = none := by
  rw [blockAt, tableOf_new, bind_none]

theorem entryOf_some (here : Stage2PageTable) (inPool : table < 4) (inside : index < 512) :
    ∃ entry, here.entryOf table index = some entry := by
  refine ⟨(here.l2Tables.get ⟨table, inPool⟩).get ⟨index, inside⟩, ?_⟩
  rw [entryOf, getElem?_eq_getElem inPool, bind_some, getElem?_eq_getElem inside]
  rfl

@[simp]
theorem ensures_readEntry {Returned : BitVec 64 → Stage2PageTable → Prop}
    {Refused : RvmError → Stage2PageTable → Prop} :
    (readEntry table index).Ensures here Returned Refused ↔
      ∃ entry, here.entryOf table index = some entry ∧ Returned entry here := by
  unfold readEntry entryOf
  simp only [ensures_bind, ensures_get, ensures_orPanic, bind_eq_some_iff]
  constructor
  · rintro ⟨entries, found, entry, inside, returned⟩
    exact ⟨entry, ⟨entries, found, inside⟩, returned⟩
  · rintro ⟨entry, ⟨entries, found, inside⟩, returned⟩
    exact ⟨entries, found, entry, inside, returned⟩

/-- One entry of the pool is replaced. -/
structure Written (here next : Stage2PageTable) (table index : Nat) (descriptor : BitVec 64) :
    Prop where
  l1Table : next.l1Table = here.l1Table
  nextL2 : next.nextL2 = here.nextL2
  entries : ∀ other place, next.entryOf other place =
    if other = table ∧ place = index then some descriptor else here.entryOf other place

theorem writeEntry_spec (inPool : table < 4) (inside : index < 512) (descriptor : BitVec 64) :
    (writeEntry table index descriptor).Ensures here
      (fun _ next => Written here next table index descriptor) fun _ _ => False := by
  unfold writeEntry
  simp only [ensures_bind, ensures_get, ensures_orPanic, ensures_set]
  have found := @Vector.getElem?_eq_getElem _ _ here.l2Tables table inPool
  refine ⟨_, found, rfl, rfl, fun other place => ?_⟩
  unfold entryOf
  rw [getElem?_setIfInBounds]
  by_cases same : table = other
  · rw [if_pos same, if_pos inPool, bind_some, getElem?_setIfInBounds, ← same, found,
      bind_some]
    by_cases here : index = place
    · rw [if_pos here, if_pos inside, if_pos ⟨rfl, here.symm⟩]
    · rw [if_neg here, if_neg fun both => here both.2.symm]
  · rw [if_neg same, if_neg fun both => same both.1.symm]

variable {descriptor : BitVec 64} {bound : Nat}

theorem Written.tableOf (written : Written here next table index descriptor) (place : Nat) :
    next.tableOf place = here.tableOf place := by
  unfold Stage2PageTable.tableOf
  rw [written.l1Table]

theorem Written.linked (written : Written here next table index descriptor) (linked : here.Linked) :
    next.Linked := by
  constructor
  · rw [written.nextL2]
    exact linked.room
  · intro place other found
    rw [written.tableOf] at found
    rw [written.nextL2]
    exact linked.inUse place other found
  · intro left right other found again
    rw [written.tableOf] at found again
    exact linked.distinct left right other found again

theorem Written.blockAt (linked : here.Linked) (owner : here.tableOf (block / 512) = some table)
    (written : Written here next table (block % 512) descriptor) (other : Nat) :
    next.blockAt other = if other = block then hostOf descriptor else here.blockAt other := by
  unfold Stage2PageTable.blockAt
  rw [written.tableOf]
  by_cases same : other = block
  · rw [if_pos same, same, owner, bind_some, written.entries, if_pos ⟨rfl, rfl⟩]
    rfl
  · rw [if_neg same]
    cases found : here.tableOf (other / 512) with
    | none => rfl
    | some otherTable =>
      rw [bind_some, bind_some, written.entries, if_neg]
      rintro ⟨rfl, place⟩
      have sameIndex := linked.distinct _ _ _ found owner
      apply same
      omega

/-! ### What the operations do to the map -/

theorem l1Entry_some (here : Stage2PageTable) (guest : BitVec 64) :
    ∃ entry, here.l1Table[l1Index guest]? = some entry := by
  have inside : l1Index guest < 512 := by
    rw [l1Index_eq]
    have := blockNumber_lt guest
    omega
  exact ⟨_, getElem?_eq_getElem inside⟩

theorem tableOf_eq {guest entry : BitVec 64} (found : here.l1Table[l1Index guest]? = some entry) :
    here.tableOf (blockNumber guest / 512) =
      if entry &&& S2Desc.valid = 0 then none else some (stashed entry) := by
  rw [tableOf, ← l1Index_eq, found, bind_some]

theorem walk_spec (linked : here.Linked) (guest : BitVec 64) :
    (walk guest).Ensures here
      (fun found next => next = here ∧
        here.tableOf (blockNumber guest / 512) = some found.1 ∧
        here.blockAt (blockNumber guest) = some (found.2 &&& addressMask).toNat)
      fun reason next => next = here ∧ reason = .internalError ∧
        here.blockAt (blockNumber guest) = none := by
  obtain ⟨l1Entry, found⟩ := here.l1Entry_some guest
  have table := tableOf_eq found
  unfold walk l1ToL2Index
  simp only [ensures_bind, ensures_get, ensures_orPanic, ensures_throwIf, ensures_pure,
    ensures_readEntry, true_and]
  refine ⟨l1Entry, found, fun invalid => ?_, fun valid => ⟨l1Entry, found, ?_⟩⟩
  · rw [blockAt, table, if_pos invalid, bind_none]
  · rw [if_neg valid] at table
    have inPool : stashed l1Entry < 4 :=
      (linked.inUse _ _ table).trans_le linked.room
    have inside : l2Index guest < 512 := by
      rw [l2Index_eq]
      exact Nat.mod_lt _ (by decide)
    obtain ⟨entry, read⟩ := here.entryOf_some inPool inside
    have host : here.blockAt (blockNumber guest) = hostOf entry := by
      rw [blockAt, table, bind_some, ← l2Index_eq, read, bind_some]
    refine ⟨entry, read, fun invalid => ?_, fun valid => ⟨table, ?_⟩⟩
    · rw [host, hostOf, if_pos invalid]
    · rw [host, hostOf, if_neg valid]

theorem translate_spec (linked : here.Linked) (guest : BitVec 64) :
    (translate guest).Ensures here
      (fun host next => next = here ∧ ∃ pa, here.blockAt (blockNumber guest) = some pa ∧
        host.toNat = pa + guest.toNat % 2 ^ 21)
      fun reason next => next = here ∧ reason = .internalError ∧
        here.blockAt (blockNumber guest) = none := by
  unfold translate
  simp only [ensures_bind, ensures_pure]
  apply (walk_spec linked guest).weaken
  rintro ⟨table, entry⟩ _ ⟨rfl, _, host⟩
  refine ⟨rfl, _, host, ?_⟩
  have aligned : (entry &&& addressMask).toNat % 2 ^ 21 = 0 := by
    rw [@window_toNat 64 entry 21 27 addressMask rfl]
    exact Nat.mul_mod_left _ _
  exact or_toNat_of_window aligned (by decide)

theorem unmapPage_spec (linked : here.Linked) (guest : BitVec 64) :
    (unmapPage guest).Ensures here
      (fun _ next => next.Linked ∧ (∃ pa, here.blockAt (blockNumber guest) = some pa) ∧
        ∀ block, next.blockAt block =
          if block = blockNumber guest then none else here.blockAt block)
      fun _ next => next = here ∧ here.blockAt (blockNumber guest) = none := by
  unfold unmapPage
  simp only [ensures_bind]
  apply (walk_spec linked guest).mono
  · rintro ⟨table, entry⟩ _ ⟨rfl, owner, host⟩
    have inPool := (linked.inUse _ _ owner).trans_le linked.room
    have inside : blockNumber guest % 512 < 512 := Nat.mod_lt _ (by decide)
    rw [l2Index_eq]
    apply (writeEntry_spec inPool inside 0).mono _ fun _ _ impossible => impossible.elim
    intro _ next written
    refine ⟨written.linked linked, ⟨_, host⟩, fun block => ?_⟩
    rw [written.blockAt linked owner]
    rfl
  · rintro reason _ ⟨rfl, _, absent⟩
    exact ⟨rfl, absent⟩

/-- A table of the pool is taken for a level-1 entry. -/
structure Allocated (here next : Stage2PageTable) (index : Nat) : Prop where
  room : here.nextL2 < 4
  nextL2 : next.nextL2 = here.nextL2 + 1
  tables : ∀ place, next.tableOf place =
    if place = index then some here.nextL2 else here.tableOf place
  entries : ∀ table place, next.entryOf table place =
    if table = here.nextL2 then (if place < 512 then some 0 else none)
    else here.entryOf table place

theorem allocL2For_spec (placed : Nat → BitVec 64) (inside : index < 512) :
    (allocL2For placed index).Ensures here (fun _ next => Allocated here next index)
      fun reason next => next = here ∧ reason = .outOfMemory ∧ 4 ≤ here.nextL2 := by
  unfold allocL2For
  simp only [ensures_bind, ensures_get, ensures_throwIf, ensures_set, true_and]
  refine ⟨fun full => full, fun room => ?_⟩
  have room : here.nextL2 < 4 := Nat.not_le.mp room
  refine ⟨room, rfl, fun place => ?_, fun table place => ?_⟩
  · unfold tableOf
    rw [getElem?_setIfInBounds]
    by_cases same : index = place
    · rw [if_pos same, if_pos inside, if_pos same.symm, bind_some,
        if_neg (descriptor_valid _ _), stashed_descriptor _ room]
    · rw [if_neg same, if_neg (Ne.symm same)]
  · unfold entryOf
    rw [getElem?_setIfInBounds]
    by_cases same : here.nextL2 = table
    · rw [if_pos same, if_pos room, if_pos same.symm, bind_some, getElem?_replicate]
      rfl
    · rw [if_neg same, if_neg (Ne.symm same)]

theorem Allocated.linked (allocated : Allocated here next index) (linked : here.Linked) :
    next.Linked := by
  have fresh : ∀ place, here.tableOf place ≠ some here.nextL2 := fun place found =>
    Nat.lt_irrefl _ (linked.inUse place _ found)
  constructor
  · rw [allocated.nextL2]
    exact allocated.room
  · intro place table found
    rw [allocated.tables] at found
    rw [allocated.nextL2]
    split at found
    · rw [← some.inj found]
      exact Nat.lt_succ_self _
    · exact Nat.lt_succ_of_lt (linked.inUse place table found)
  · intro left right table found again
    rw [allocated.tables] at found again
    split at found
    · rename_i isLeft
      split at again
      · rename_i isRight
        rw [isLeft, isRight]
      · exact (fresh right (again.trans found.symm)).elim
    · split at again
      · exact (fresh left (found.trans again.symm)).elim
      · exact linked.distinct left right table found again

theorem Allocated.blockAt (allocated : Allocated here next index) (linked : here.Linked)
    (absent : here.tableOf index = none) (block : Nat) :
    next.blockAt block = here.blockAt block := by
  unfold Stage2PageTable.blockAt
  rw [allocated.tables]
  split
  · rename_i isIndex
    have inside : block % 512 < 512 := Nat.mod_lt _ (by decide)
    rw [isIndex, absent, bind_some, allocated.entries, if_pos rfl, if_pos inside]
    rfl
  · cases found : here.tableOf (block / 512) with
    | none => rfl
    | some table =>
      have other : table ≠ here.nextL2 := Nat.ne_of_lt (linked.inUse _ _ found)
      rw [bind_some, bind_some, allocated.entries, if_neg other]

structure Mapped (here next : Stage2PageTable) (block pa : Nat) : Prop where
  linked : next.Linked
  absent : here.blockAt block = none
  blocks : ∀ other, next.blockAt other = if other = block then some pa else here.blockAt other
  nextL2 : next.nextL2 = here.nextL2 + if here.tableOf (block / 512) = none then 1 else 0
  tables : ∀ index, next.tableOf index = none ↔ here.tableOf index = none ∧ index ≠ block / 512

def Full (here : Stage2PageTable) (block : Nat) : Prop :=
  here.tableOf (block / 512) = none ∧ 4 ≤ here.nextL2

def Aligned (ipa pa : BitVec 64) : Prop := ipa.toNat % 2 ^ 21 = 0 ∧ pa.toNat % 2 ^ 21 = 0

/-- Why a block is not mapped. -/
inductive Unmapped (here : Stage2PageTable) (ipa pa : BitVec 64) : RvmError → Prop
  | unaligned : ¬Aligned ipa pa → Unmapped here ipa pa .alignmentError
  | full : Aligned ipa pa → here.Full (blockNumber ipa) → Unmapped here ipa pa .outOfMemory
  | occupied {host : Nat} : Aligned ipa pa → here.blockAt (blockNumber ipa) = some host →
      Unmapped here ipa pa .memoryOverlap

theorem unaligned_iff (ipa pa : BitVec 64) :
    (ipa &&& (l2BlockSize - 1) ≠ 0 ∨ pa &&& (l2BlockSize - 1) ≠ 0) ↔ ¬Aligned ipa pa := by
  rw [Ne, Ne, low_eq_zero, low_eq_zero, Aligned, not_and_or]

theorem l1ToL2Index_spec {ipa : BitVec 64}
    (owner : here.tableOf (blockNumber ipa / 512) = some table) :
    (l1ToL2Index (l1Index ipa)).Ensures here (fun found next => found = table ∧ next = here)
      fun _ _ => False := by
  obtain ⟨entry, found⟩ := here.l1Entry_some ipa
  rw [tableOf_eq found] at owner
  unfold l1ToL2Index
  simp only [ensures_bind, ensures_get, ensures_orPanic, ensures_pure, and_true]
  refine ⟨entry, found, ?_⟩
  split at owner
  · cases owner
  · exact some.inj owner

theorem place_spec {ipa pa attrs : BitVec 64} (linked : here.Linked)
    (outside : attrs &&& addressMask = 0#64)
    (owner : here.tableOf (blockNumber ipa / 512) = some table) :
    (do
      let l2Idx ← l1ToL2Index (l1Index ipa)
      let entry ← readEntry l2Idx (l2Index ipa)
      throwIf (entry &&& S2Desc.valid ≠ 0) RvmError.memoryOverlap
      let descriptor := (pa &&& addressMask) ||| attrs ||| S2Desc.af ||| S2Desc.valid
      writeEntry l2Idx (l2Index ipa) descriptor).Ensures here
      (fun _ next => next.Linked ∧ here.blockAt (blockNumber ipa) = none ∧
        next.nextL2 = here.nextL2 ∧ (∀ index, next.tableOf index = here.tableOf index) ∧
        ∀ other, next.blockAt other = if other = blockNumber ipa
          then some (pa &&& addressMask).toNat else here.blockAt other)
      fun reason next => next = here ∧ reason = RvmError.memoryOverlap ∧
        ∃ host, here.blockAt (blockNumber ipa) = some host := by
  have inPool : table < 4 := (linked.inUse _ _ owner).trans_le linked.room
  have inside : blockNumber ipa % 512 < 512 := Nat.mod_lt _ (by decide)
  obtain ⟨entry, read⟩ := here.entryOf_some inPool inside
  have host : here.blockAt (blockNumber ipa) = hostOf entry := by
    rw [blockAt, owner, bind_some, read, bind_some]
  rw [l2Index_eq, ensures_bind]
  apply (l1ToL2Index_spec owner).mono _ fun _ _ impossible => impossible.elim
  rintro _ _ ⟨rfl, rfl⟩
  simp only [ensures_bind, ensures_readEntry, ensures_throwIf, true_and]
  refine ⟨entry, read, fun valid => ⟨(entry &&& addressMask).toNat, ?_⟩, fun invalid => ?_⟩
  · rw [host, hostOf, if_neg valid]
  · apply (writeEntry_spec inPool inside _).mono _ fun _ _ impossible => impossible.elim
    intro _ next written
    refine ⟨written.linked linked, ?_, written.nextL2, written.tableOf, fun other => ?_⟩
    · rw [host, hostOf, if_pos (not_not.mp invalid)]
    · rw [written.blockAt linked owner, hostOf, if_neg (or_valid _),
        descriptor_address pa outside]

theorem map2mbBlock_spec (linked : here.Linked) (placed : Nat → BitVec 64)
    (ipa pa : BitVec 64) {attrs : BitVec 64} (outside : attrs &&& addressMask = 0#64) :
    (map2mbBlock placed ipa pa attrs).Ensures here
      (fun _ next => Aligned ipa pa ∧
        Mapped here next (blockNumber ipa) (pa &&& addressMask).toNat)
      fun reason next => next = here ∧ Unmapped here ipa pa reason := by
  obtain ⟨l1Entry, found⟩ := here.l1Entry_some ipa
  have table := tableOf_eq found
  unfold map2mbBlock
  simp only [ensures_bind, ensures_get, ensures_orPanic, ensures_throwIf, unaligned_iff, true_and]
  refine ⟨.unaligned, fun aligned => ⟨l1Entry, found, ?_⟩⟩
  have aligned : Aligned ipa pa := not_not.mp aligned
  split
  · rename_i invalid
    rw [if_pos invalid] at table
    have inside : l1Index ipa < 512 := by
      have small := blockNumber_lt ipa
      rw [l1Index_eq]
      omega
    rw [ensures_bind]
    apply (allocL2For_spec placed inside).mono
    · intro _ middle allocated
      have owner : middle.tableOf (blockNumber ipa / 512) = some here.nextL2 := by
        rw [allocated.tables, if_pos (l1Index_eq ipa).symm]
      have absent : here.tableOf (l1Index ipa) = none := l1Index_eq ipa ▸ table
      have same := allocated.blockAt linked absent
      apply (place_spec (allocated.linked linked) outside owner).mono
      · rintro _ next ⟨nextLinked, free, nextL2, tables, blocks⟩
        refine ⟨aligned, nextLinked, same _ ▸ free, fun other => ?_, ?_, fun index => ?_⟩
        · rw [blocks, same]
        · rw [nextL2, allocated.nextL2, if_pos table]
        · rw [tables, allocated.tables, l1Index_eq]
          by_cases isIndex : index = blockNumber ipa / 512 <;> simp [isIndex]
      · rintro _ _ ⟨rfl, rfl, host, occupied⟩
        rw [same, blockAt, table] at occupied
        cases occupied
    · rintro _ _ ⟨rfl, rfl, full⟩
      exact ⟨rfl, .full aligned ⟨table, full⟩⟩
  · rename_i valid
    rw [if_neg valid] at table
    apply (place_spec linked outside table).mono
    · rintro _ next ⟨nextLinked, free, nextL2, tables, blocks⟩
      refine ⟨aligned, nextLinked, free, blocks, ?_, fun index => ?_⟩
      · rw [nextL2, table, if_neg (some_ne_none _), Nat.add_zero]
      · rw [tables]
        refine ⟨fun none => ⟨none, fun isIndex => ?_⟩, fun both => both.1⟩
        rw [isIndex, table] at none
        cases none
    · rintro _ _ ⟨rfl, rfl, host, occupied⟩
      exact ⟨rfl, .occupied aligned occupied⟩

theorem mapRam2mb_spec (linked : here.Linked) (placed : Nat → BitVec 64) (ipa pa : BitVec 64) :
    (mapRam2mb placed ipa pa).Ensures here
      (fun _ next => Aligned ipa pa ∧
        Mapped here next (blockNumber ipa) (pa &&& addressMask).toNat)
      fun reason next => next = here ∧ Unmapped here ipa pa reason :=
  map2mbBlock_spec linked placed ipa pa (by decide)

theorem mapPage_spec (linked : here.Linked) (placed : Nat → BitVec 64) (guest host : BitVec 64) :
    (mapPage placed guest host).Ensures here
      (fun _ next => Aligned guest host ∧
        Mapped here next (blockNumber guest) (host &&& addressMask).toNat)
      fun reason next => next = here ∧ Unmapped here guest host reason := by
  unfold mapPage
  simp only [ensures_bind, ensures_throwIf, unaligned_iff, true_and]
  exact ⟨.unaligned, fun _ => mapRam2mb_spec linked placed guest host⟩

/-! ### The identity map -/

/-- The level-1 entries below a bound that have no table. -/
def missing (here : Stage2PageTable) (bound : Nat) : Nat :=
  occupied bound fun index => (here.tableOf index).isNone

/-- Every block below a size can be mapped. -/
structure Fits (here : Stage2PageTable) (size : Nat) : Prop where
  indexed : size ≤ 2 ^ 39
  free : ∀ block < size / 2 ^ 21, here.blockAt block = none
  tables : here.nextL2 + here.missing ((size + 2 ^ 30 - 1) / 2 ^ 30) ≤ 4

theorem Mapped.missing {pa : Nat} (mapped : Mapped here next block pa)
    (below : block / 512 < bound) :
    next.nextL2 + next.missing bound = here.nextL2 + here.missing bound := by
  have same : ∀ index, index ≠ block / 512 →
      (next.tableOf index).isNone = (here.tableOf index).isNone := by
    intro index other
    rw [Bool.eq_iff_iff, isNone_iff_eq_none, isNone_iff_eq_none, mapped.tables]
    exact and_iff_left other
  have filled : (next.tableOf (block / 512)).isNone = false := by
    rw [Bool.eq_false_iff, Ne, isNone_iff_eq_none, mapped.tables]
    exact fun both => both.2 rfl
  rw [mapped.nextL2]
  unfold Stage2PageTable.missing
  split
  · rename_i absent
    have absent : (here.tableOf (block / 512)).isNone = true := isNone_iff_eq_none.mpr absent
    rw [← occupied_clear below absent filled same]
    omega
  · rename_i present
    rw [Nat.add_zero]
    refine congrArg _ (occupied_congr fun index _ => ?_)
    by_cases isIndex : index = block / 512
    · rw [isIndex, filled, eq_comm, Bool.eq_false_iff, Ne, isNone_iff_eq_none]
      exact present
    · exact same index isIndex

theorem missing_pos (below : index < bound) (absent : here.tableOf index = none) :
    0 < here.missing bound := by
  apply List.countP_pos_iff.mpr
  exact ⟨index, List.mem_range.mpr below, isNone_iff_eq_none.mpr absent⟩

/-- The blocks below a number are mapped to themselves. -/
structure Loaded (here next : Stage2PageTable) (bound count : Nat) : Prop where
  linked : next.Linked
  blocks : ∀ other, next.blockAt other =
    if other < count then some (other * 2 ^ 21) else here.blockAt other
  tables : next.nextL2 + next.missing bound = here.nextL2 + here.missing bound

theorem range_split {count item : Nat} {visited rest : List Nat}
    (split : List.range count = visited ++ item :: rest) :
    item = visited.length ∧ visited.length < count := by
  have inside : visited.length < (List.range count).length := by
    rw [split, List.length_append, List.length_cons]
    omega
  have found : (List.range count)[visited.length]? = some item := by
    rw [split, List.getElem?_append_right (Nat.le_refl _), Nat.sub_self]
    rfl
  rw [List.length_range] at inside
  rw [List.getElem?_range inside] at found
  exact ⟨(some.inj found).symm, inside⟩

theorem block_address {block : Nat} (below : block < 2 ^ 18) :
    (BitVec.ofNat 64 (block * l2BlockSize.toNat)).toNat = block * 2 ^ 21 := by
  rw [BitVec.toNat_ofNat]
  exact Nat.mod_eq_of_lt (by show block * 2 ^ 21 < 2 ^ 64; omega)

theorem Loaded.round {count size : Nat} (fits : here.Fits size)
    (isBound : bound = (size + 2 ^ 30 - 1) / 2 ^ 30) (loaded : Loaded here next bound count)
    (below : count < size / 2 ^ 21) (placed : Nat → BitVec 64) :
    (mapRam2mb placed (BitVec.ofNat 64 (count * l2BlockSize.toNat))
      (BitVec.ofNat 64 (count * l2BlockSize.toNat))).Ensures next
      (fun _ after => Loaded here after bound (count + 1)) fun _ _ => False := by
  have indexed := fits.indexed
  have small : count < 2 ^ 18 := by omega
  have address := block_address small
  have number : blockNumber (BitVec.ofNat 64 (count * l2BlockSize.toNat)) = count := by
    rw [blockNumber, address]
    omega
  have aligned : Aligned (BitVec.ofNat 64 (count * l2BlockSize.toNat))
      (BitVec.ofNat 64 (count * l2BlockSize.toNat)) := by
    constructor <;> rw [address] <;> exact Nat.mul_mod_left _ _
  have inside : count / 512 < bound := by omega
  have free : next.blockAt count = none := by
    rw [loaded.blocks, if_neg (Nat.lt_irrefl _)]
    exact fits.free count below
  have host : (BitVec.ofNat 64 (count * l2BlockSize.toNat) &&& addressMask).toNat =
      count * 2 ^ 21 := by
    rw [@window_toNat_of_fits 64 _ 21 27 addressMask rfl aligned.1 (by rw [address]; omega), address]
  apply (mapRam2mb_spec loaded.linked placed _ _).mono
  · rw [number, host]
    rintro _ after ⟨_, mapped⟩
    refine ⟨mapped.linked, fun other => ?_, ?_⟩
    · rw [mapped.blocks, loaded.blocks]
      by_cases isCount : other = count
      · rw [if_pos isCount, if_pos (by omega), isCount]
      · rw [if_neg isCount]
        by_cases earlier : other < count
        · rw [if_pos earlier, if_pos (by omega)]
        · rw [if_neg earlier, if_neg (by omega)]
    · rw [mapped.missing inside, loaded.tables]
  · rintro reason _ ⟨rfl, unmapped⟩
    cases unmapped with
    | unaligned unaligned => exact unaligned aligned
    | full _ full =>
      rw [number] at full
      have absent := missing_pos inside full.1
      have none := full.2
      have room := isBound ▸ fits.tables
      have kept := loaded.tables
      omega
    | occupied _ occupied =>
      rw [number, free] at occupied
      cases occupied

theorem identityMapRam_fits (linked : here.Linked) (placed : Nat → BitVec 64) (size : BitVec 64)
    (aligned : size.toNat % 2 ^ 21 = 0) (fits : here.Fits size.toNat) :
    (identityMapRam placed size).Ensures here
      (fun _ next => next.Linked ∧ ∀ block, next.blockAt block =
        if block < size.toNat / 2 ^ 21 then some (block * 2 ^ 21) else here.blockAt block)
      fun _ _ => False := by
  unfold identityMapRam
  simp only [ensures_bind, ensures_throwIf]
  refine ⟨fun unaligned => unaligned ((low_eq_zero size).mpr aligned), fun _ => ?_⟩
  have looped : ((List.range (size.toNat / 2 ^ 21)).forM fun block =>
      mapRam2mb placed (BitVec.ofNat 64 (block * l2BlockSize.toNat))
        (BitVec.ofNat 64 (block * l2BlockSize.toNat))).Ensures here
      (fun _ next => Loaded here next ((size.toNat + 2 ^ 30 - 1) / 2 ^ 30)
        (List.range (size.toNat / 2 ^ 21)).length) fun _ _ => False := by
    apply @ensures_forM _ _ _ _ _ _ _ (fun visited next =>
      Loaded here next ((size.toNat + 2 ^ 30 - 1) / 2 ^ 30) visited.length)
    · exact ⟨linked, fun _ => rfl, rfl⟩
    · intro visited block rest middle split loaded
      obtain ⟨rfl, below⟩ := range_split split
      rw [List.length_append]
      exact loaded.round fits rfl below placed
  apply looped.weaken
  intro _ next loaded
  rw [List.length_range] at loaded
  exact ⟨loaded.linked, loaded.blocks⟩

theorem identityMapRam_refused (linked : here.Linked) (placed : Nat → BitVec 64) {size : BitVec 64}
    (aligned : size.toNat % 2 ^ 21 = 0) (nonempty : size.toNat ≠ 0)
    (refused : here.blockAt 0 = none → here.Full 0) :
    (identityMapRam placed size).Ensures here (fun _ _ => False) fun _ next => next = here := by
  unfold identityMapRam
  simp only [ensures_bind, ensures_throwIf]
  refine ⟨fun _ => trivial, fun _ => ?_⟩
  obtain ⟨count, counted⟩ : ∃ count, size.toNat / l2BlockSize.toNat = count + 1 :=
    ⟨size.toNat / 2 ^ 21 - 1, by show size.toNat / 2 ^ 21 = _; omega⟩
  rw [counted, List.range_succ_eq_map]
  change Ensures (mapRam2mb placed (BitVec.ofNat 64 (0 * l2BlockSize.toNat))
    (BitVec.ofNat 64 (0 * l2BlockSize.toNat)) >>= fun _ => _) here _ _
  rw [ensures_bind]
  apply (mapRam2mb_spec linked placed _ _).mono
  · rintro _ next ⟨_, mapped⟩
    have full := refused mapped.absent
    have taken : next.nextL2 = here.nextL2 + if here.tableOf (0 / 512) = none then 1 else 0 :=
      mapped.nextL2
    have room := mapped.linked.room
    rw [if_pos full.1] at taken
    have none := full.2
    omega
  · exact fun _ _ unmapped => unmapped.1

end Stage2PageTable

end Rvm.Hal
