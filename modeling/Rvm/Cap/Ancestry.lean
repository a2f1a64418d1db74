import Rvm.Cap.Generations

/-!
Owns what the capabilities of a table were derived from: the handle each parent had at the
insertion. The table itself keeps its slot only.
-/

namespace Rvm.Cap

open Foundation Function

/-- A capability as it was inserted: its handle, and a number that no other insertion
has. -/
structure Inserted where
  handle : Nat × Nat
  serial : Nat
deriving DecidableEq, Repr

/-- A table with, for each slot, the number of its last insertion and the ancestors
that this insertion had, the parent first. -/
structure Traced where
  table : CapabilityTable
  serials : Nat → Nat
  ancestors : Nat → List Inserted
  nextSerial : Nat

namespace Traced

open CapabilityTable

def new : Traced := ⟨.new, fun _ => 0, fun _ => [], 1⟩

def occupant (here : Traced) (index : Nat) : Inserted :=
  ⟨(index, (here.table.slots index).generation), here.serials index⟩

def placed (here : Traced) (after : CapabilityTable) (index : Nat) (ancestors : List Inserted) :
    Traced where
  table := after
  serials := update here.serials index here.nextSerial
  ancestors := update here.ancestors index ancestors
  nextSerial := here.nextSerial + 1

inductive Step (N : Nat) (here : Traced) : TableCall × TableOutcome → Traced → Prop
  | insertedRoot {token : CapToken} {owner : PartitionId} {badge : Nat} {handle : Nat × Nat}
      {after : CapabilityTable} :
      insertRoot N here.table token owner badge = .ok (handle, after) →
      Step N here (.insertRoot token owner badge, .ok (.handle handle.1 handle.2))
        (here.placed after handle.1 [])
  | insertedDerived {token : CapToken} {owner : PartitionId} {badge : Nat} {handle : Nat × Nat}
      {after : CapabilityTable} {parent : Nat × Nat} {depth : Nat} :
      Live N here.table parent.1 parent.2 →
      depth = (here.table.slots parent.1).depth + 1 → depth < 256 →
      insertDerived N here.table token owner depth parent.1 badge = .ok (handle, after) →
      Step N here (.insertDerived token owner depth parent.1 badge,
          .ok (.handle handle.1 handle.2))
        (here.placed after handle.1 (here.occupant parent.1 :: here.ancestors parent.1))
  | removed {index generation : Nat} {after : CapabilityTable} :
      remove N here.table index generation = .ok after →
      Step N here (.remove index generation, .ok .done) { here with table := after }
  | refused {call : TableCall} {reason : CapError} :
      here.table.apply N call = (.error reason, here.table) →
      Step N here (call, .error reason) here

def InUse (N : Nat) (table : CapabilityTable) (index : Nat) : Prop :=
  index < N ∧ (table.slots index).generation ≠ 0

structure Recorded (N : Nat) (here : Traced) : Prop where
  inv : here.table.Inv N
  numbered : ∀ index, here.serials index < here.nextSerial
  earlier : ∀ index, ∀ ancestor ∈ here.ancestors index, ancestor.serial < here.nextSerial
  root : ∀ index, InUse N here.table index → here.ancestors index = [] →
    (here.table.slots index).depth = 0
  child : ∀ index parent rest, InUse N here.table index → here.ancestors index = parent :: rest →
    0 < (here.table.slots index).depth ∧
      (here.table.slots index).parentIndex = parent.handle.1 ∧ parent.handle.1 < N ∧
      (InUse N here.table parent.handle.1 → here.serials parent.handle.1 = parent.serial →
        here.occupant parent.handle.1 = parent ∧ here.ancestors parent.handle.1 = rest)

variable {N : Nat} {here next : Traced} {label : TableCall × TableOutcome}

theorem recorded_new : Recorded N new where
  inv := new_inv N
  numbered _ := Nat.one_pos
  earlier := nofun
  root := nofun
  child := by
    intro index parent rest _ none
    cases none

section Placed

variable {index other : Nat} {slot : CapSlot} {ancestors : List Inserted}
  {after : CapabilityTable}

theorem placed_other (slots : after.slots = update here.table.slots index slot)
    (different : other ≠ index) :
    (here.placed after index ancestors).table.slots other = here.table.slots other ∧
      (here.placed after index ancestors).occupant other = here.occupant other ∧
      (here.placed after index ancestors).ancestors other = here.ancestors other := by
  simp [placed, occupant, slots, different]

theorem placed_here (slots : after.slots = update here.table.slots index slot) :
    (here.placed after index ancestors).table.slots index = slot ∧
      (here.placed after index ancestors).serials index = here.nextSerial ∧
      (here.placed after index ancestors).ancestors index = ancestors := by
  simp [placed, slots]

theorem recorded_placed (recorded : Recorded N here) (inv : after.Inv N)
    (free : (here.table.slots index).generation = 0)
    (slots : after.slots = update here.table.slots index slot)
    (earlier : ∀ ancestor ∈ ancestors, ancestor.serial < here.nextSerial)
    (root : ancestors = [] → slot.depth = 0)
    (child : ∀ parent rest, ancestors = parent :: rest →
      0 < slot.depth ∧ slot.parentIndex = parent.handle.1 ∧ InUse N here.table parent.handle.1 ∧
        here.occupant parent.handle.1 = parent ∧ here.ancestors parent.handle.1 = rest) :
    Recorded N (here.placed after index ancestors) where
  inv := inv
  numbered other := by
    by_cases same : other = index
    · rw [same, (placed_here slots).2.1]
      exact Nat.lt_succ_self _
    · have untouched := @placed_other here index other slot ancestors after slots same
      have kept : (here.placed after index ancestors).serials other = here.serials other :=
        congrArg Inserted.serial untouched.2.1
      rw [kept]
      exact Nat.lt_succ_of_lt (recorded.numbered other)
  earlier other ancestor member := by
    apply Nat.lt_succ_of_lt
    by_cases same : other = index
    · rw [same, (placed_here slots).2.2] at member
      exact earlier ancestor member
    · rw [(placed_other slots same).2.2] at member
      exact recorded.earlier other ancestor member
  root other inUse none := by
    by_cases same : other = index
    · rw [same, (placed_here slots).2.2] at none
      rw [same, (placed_here slots).1]
      exact root none
    · rw [(placed_other slots same).2.2] at none
      rw [InUse, (placed_other slots same).1] at inUse
      rw [(placed_other slots same).1]
      exact recorded.root other inUse none
  child other parent rest inUse descends := by
    by_cases same : other = index
    · rw [same, (placed_here slots).2.2] at descends
      obtain ⟨depth, parentIndex, above, occupant, ancestors⟩ := child parent rest descends
      have elsewhere : parent.handle.1 ≠ index := fun here => above.2 (here ▸ free)
      rw [same, (placed_here slots).1, (placed_other slots elsewhere).2.1,
        (placed_other slots elsewhere).2.2]
      exact ⟨depth, parentIndex, above.1, fun _ _ => ⟨occupant, ancestors⟩⟩
    · rw [(placed_other slots same).2.2] at descends
      rw [InUse, (placed_other slots same).1] at inUse
      obtain ⟨depth, parentIndex, below, kept⟩ := recorded.child other parent rest inUse descends
      rw [(placed_other slots same).1]
      refine ⟨depth, parentIndex, below, fun above serial => ?_⟩
      by_cases reused : parent.handle.1 = index
      · -- The slot of the parent has an occupant with a number of its own.
        rw [reused, (placed_here slots).2.1] at serial
        have before := recorded.earlier other parent (descends ▸ List.mem_cons_self)
        exact (Nat.lt_irrefl _ (serial ▸ before)).elim
      · have untouched := @placed_other here index parent.handle.1 slot ancestors after slots reused
        rw [InUse, untouched.1] at above
        rw [untouched.2.1, untouched.2.2]
        exact kept above ((congrArg Inserted.serial untouched.2.1).symm.trans serial)

end Placed

theorem remove_spec {table after : CapabilityTable} {index generation : Nat}
    (removed : remove N table index generation = .ok after) :
    Live N table index generation ∧ after = forceInvalidate N table index ∧
      after.slots = update table.slots index (table.slots index).invalidate := by
  unfold remove at removed
  split at removed
  · cases removed
  · rename_i slot found
    cases removed
    obtain ⟨below, rfl, used, same⟩ := lookup_eq_ok.mp found
    refine ⟨⟨below, same ▸ used, same⟩, rfl, ?_⟩
    rw [forceInvalidate, if_pos ⟨below, (CapSlot.isValid_eq_true _).mpr used⟩]

/-- A removal leaves every capability with the parent it had, or without one. -/
theorem recorded_removed (recorded : Recorded N here) {index generation : Nat}
    {after : CapabilityTable} (removed : remove N here.table index generation = .ok after) :
    Recorded N { here with table := after } := by
  obtain ⟨-, invalidated, slots⟩ := remove_spec removed
  have kept : ∀ other, InUse N after other →
      other ≠ index ∧ InUse N here.table other ∧ after.slots other = here.table.slots other := by
    intro other inUse
    have different : other ≠ index := by
      rintro rfl
      exact inUse.2 (by rw [slots, update_self]; rfl)
    have same : after.slots other = here.table.slots other := by
      rw [slots, update_of_ne different]
    exact ⟨different, ⟨inUse.1, same ▸ inUse.2⟩, same⟩
  constructor
  · exact invalidated ▸ forceInvalidate_inv recorded.inv index
  · exact recorded.numbered
  · exact recorded.earlier
  · intro other inUse none
    obtain ⟨-, before, same⟩ := kept other inUse
    exact same ▸ recorded.root other before none
  · intro other parent rest inUse descends
    obtain ⟨-, before, same⟩ := kept other inUse
    obtain ⟨depth, parentIndex, below, above⟩ := recorded.child other parent rest before descends
    refine ⟨same ▸ depth, same ▸ parentIndex, below, fun parentInUse serial => ?_⟩
    obtain ⟨-, parentBefore, parentSame⟩ := kept parent.handle.1 parentInUse
    obtain ⟨occupant, ancestors⟩ := above parentBefore serial
    refine ⟨?_, ancestors⟩
    show Inserted.mk (parent.handle.1, (after.slots parent.handle.1).generation) _ = parent
    rw [parentSame]
    exact occupant

theorem recorded_step (capacity : N ≤ u32Max) (recorded : Recorded N here)
    (step : Step N here label next) : Recorded N next := by
  have small : ∀ index, index < N → asU32 index = index := fun index below =>
    asU32_of_lt (Nat.lt_of_lt_of_le below capacity)
  cases step with
  | insertedRoot inserted =>
    obtain ⟨index, -, -, below, free, handle, -, -, slots, -, -⟩ :=
      insertDerived_spec recorded.inv inserted
    rw [handle, small index below]
    exact recorded_placed recorded (insertDerived_inv recorded.inv inserted) free slots nofun
      (fun _ => rfl) nofun
  | @insertedDerived _ _ _ _ _ parent depth live level bounded inserted =>
    obtain ⟨index, -, -, below, free, handle, -, -, slots, -, -⟩ :=
      insertDerived_spec recorded.inv inserted
    rw [handle, small index below]
    apply recorded_placed recorded (insertDerived_inv recorded.inv inserted) free slots
    · intro ancestor member
      rcases List.mem_cons.mp member with rfl | member
      · exact recorded.numbered parent.1
      · exact recorded.earlier parent.1 ancestor member
    · nofun
    · intro above rest split
      obtain ⟨rfl, rfl⟩ := List.cons.inj split
      exact ⟨level ▸ Nat.succ_pos _, rfl, ⟨live.1, live.2.2 ▸ live.2.1⟩, rfl, rfl⟩
  | removed removed => exact recorded_removed recorded removed
  | refused => exact recorded

theorem recorded_of_run {labels : List (TableCall × TableOutcome)} (capacity : N ≤ u32Max)
    (run : Run (Step N) new labels here) : Recorded N here :=
  run.stateInvariant recorded_new fun _ _ _ recorded => recorded_step capacity recorded

end Traced

end Rvm.Cap
