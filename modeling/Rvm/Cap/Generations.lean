import Rvm.Cap.Table
import Rvm.Foundation.Run

/-!
Owns the calls of the capability table as a labelled step relation and the
lifetime of its handles: what one call does to the generation of a slot, and how
long a handle that was removed stays dead.
-/

namespace Rvm.Cap

open Foundation Function CapSlot

inductive TableCall where
  | insertRoot (token : CapToken) (owner : PartitionId) (badge : Nat)
  | insertDerived (token : CapToken) (owner : PartitionId) (depth parentIndex badge : Nat)
  | remove (index generation : Nat)
  | forceInvalidate (index : Nat)
deriving DecidableEq, Repr

inductive TableReply where
  | handle (index generation : Nat)
  | done
deriving DecidableEq, Repr

abbrev TableOutcome := Except CapError TableReply

def returnsIndex (index : Nat) (label : TableCall × TableOutcome) : Bool :=
  match label.2 with
  | .ok (.handle returned _) => returned == index
  | _ => false

namespace CapabilityTable

def withInserted (table : CapabilityTable)
    (result : Except CapError ((Nat × Nat) × CapabilityTable)) : TableOutcome × CapabilityTable :=
  match result with
  | .error e => (.error e, table)
  | .ok (handle, after) => (.ok (.handle handle.1 handle.2), after)

def apply (N : Nat) (table : CapabilityTable) : TableCall → TableOutcome × CapabilityTable
  | .insertRoot token owner badge => table.withInserted (table.insertRoot N token owner badge)
  | .insertDerived token owner depth parentIndex badge =>
    table.withInserted (table.insertDerived N token owner depth parentIndex badge)
  | .remove index generation =>
    match table.remove N index generation with
    | .error e => (.error e, table)
    | .ok after => (.ok .done, after)
  | .forceInvalidate index => (.ok .done, table.forceInvalidate N index)

def Step (N : Nat) (table : CapabilityTable) (label : TableCall × TableOutcome)
    (next : CapabilityTable) : Prop :=
  table.apply N label.1 = (label.2, next)

/-- What one call does to the slots: nothing, one free slot is filled under its
next generation, or one slot in use is invalidated. -/
inductive SlotEffect (N : Nat) (table : CapabilityTable) :
    TableCall × TableOutcome → CapabilityTable → Prop
  | unchanged {label : TableCall × TableOutcome} {next : CapabilityTable} :
      next.slots = table.slots → SlotEffect N table label next
  | filled {label : TableCall × TableOutcome} {next : CapabilityTable} (index : Nat)
      (slot : CapSlot) : (table.slots index).generation = 0 →
      slot.generation = (table.slots index).nextGeneration → slot.generation ≠ 0 →
      next.slots = update table.slots index slot →
      returnsIndex (asU32 index) label = true → SlotEffect N table label next
  | emptied {label : TableCall × TableOutcome} {next : CapabilityTable} (index : Nat) :
      (table.slots index).generation ≠ 0 →
      next.slots = update table.slots index (table.slots index).invalidate →
      SlotEffect N table label next

variable {N : Nat} {table next : CapabilityTable} {label : TableCall × TableOutcome}

theorem slotEffect_insertDerived {token : CapToken} {owner : PartitionId}
    {depth parentIndex badge : Nat} (inv : Inv N table)
    (inserted : table.withInserted (table.insertDerived N token owner depth parentIndex badge) =
      (label.2, next)) : Inv N next ∧ SlotEffect N table label next := by
  unfold withInserted at inserted
  split at inserted
  · simp only [Prod.mk.injEq] at inserted
    exact inserted.2 ▸ ⟨inv, .unchanged rfl⟩
  · rename_i handle after found
    simp only [Prod.mk.injEq] at inserted
    obtain ⟨outcome, rfl⟩ := inserted
    obtain ⟨index, _, _, _, free, handleIndex, generation, nonzero, slots, _⟩ :=
      insertDerived_spec inv found
    refine ⟨insertDerived_inv inv found, .filled index _ free generation nonzero slots ?_⟩
    simp [returnsIndex, ← outcome, handleIndex]

theorem slotEffect_forceInvalidate (inv : Inv N table) (index : Nat) :
    Inv N (table.forceInvalidate N index) ∧
      SlotEffect N table label (table.forceInvalidate N index) := by
  refine ⟨forceInvalidate_inv inv index, ?_⟩
  unfold forceInvalidate
  split
  · rename_i used
    exact .emptied index (by simpa using used.2) rfl
  · exact .unchanged rfl

theorem slotEffect_of_step (inv : Inv N table) (step : Step N table label next) :
    Inv N next ∧ SlotEffect N table label next := by
  obtain ⟨call, outcome⟩ := label
  cases call with
  | insertRoot token owner badge | insertDerived token owner depth parentIndex badge =>
    exact slotEffect_insertDerived inv step
  | remove index generation =>
    simp only [Step, apply, remove] at step
    split at step
    · simp only [Prod.mk.injEq] at step
      exact step.2 ▸ ⟨inv, .unchanged rfl⟩
    · rename_i removed
      split at removed
      · cases removed
      · cases removed
        simp only [Prod.mk.injEq] at step
        exact step.2 ▸ slotEffect_forceInvalidate inv index
  | forceInvalidate index =>
    simp only [Step, apply, Prod.mk.injEq] at step
    exact step.2 ▸ slotEffect_forceInvalidate inv index

end CapabilityTable

/-- The number of different generations of a slot: `0` marks a free slot, and
the stash `u32::MAX` of the last generation reads as a fresh slot. -/
def generationCycle : Nat := 4294967294

def generationAfter (start turns : Nat) : Nat := (start - 1 + turns) % generationCycle + 1

/-- A generation that a slot can have. -/
def InCycle (generation : Nat) : Prop := 1 ≤ generation ∧ generation ≤ generationCycle

theorem inCycle_generationAfter (start turns : Nat) : InCycle (generationAfter start turns) := by
  unfold InCycle generationAfter generationCycle
  omega

variable {start : Nat}

@[simp] theorem generationAfter_zero (inCycle : InCycle start) :
    generationAfter start 0 = start := by
  unfold InCycle at inCycle
  unfold generationAfter generationCycle at *
  omega

theorem generationAfter_add (start first second : Nat) :
    generationAfter (generationAfter start first) second = generationAfter start (first + second) := by
  unfold generationAfter
  rw [Nat.add_sub_cancel, Nat.mod_add_mod, Nat.add_assoc]

theorem generationAfter_ne {turns : Nat} (inCycle : InCycle start) (positive : 0 < turns)
    (few : turns < generationCycle) : generationAfter start turns ≠ start := by
  unfold InCycle at inCycle
  unfold generationAfter generationCycle at *
  omega

theorem generationAfter_cycle (inCycle : InCycle start) :
    generationAfter start generationCycle = start := by
  unfold InCycle at inCycle
  unfold generationAfter generationCycle at *
  omega

namespace CapSlot

theorem nextGeneration_invalidate {slot : CapSlot} (inCycle : InCycle slot.generation) :
    slot.invalidate.nextGeneration = generationAfter slot.generation 1 := by
  obtain ⟨positive, bounded⟩ := inCycle
  unfold generationCycle at bounded
  have noWrap : (slot.generation + 1) % 4294967296 = slot.generation + 1 :=
    Nat.mod_eq_of_lt (by omega)
  simp only [nextGeneration, invalidate, noWrap, ne_eq, not_true_eq_false, if_false, u32Max,
    generationAfter, generationCycle]
  split <;> split <;> omega

theorem nextGeneration_used {slot : CapSlot} (used : slot.generation ≠ 0) :
    slot.nextGeneration = slot.generation := by
  simp [nextGeneration, used]

end CapSlot

namespace CapabilityTable

variable {N : Nat} {table next : CapabilityTable}

structure Stamped (N : Nat) (table : CapabilityTable) : Prop where
  inv : Inv N table
  inCycle : ∀ index, InCycle (table.slots index).nextGeneration

theorem stamped_new (N : Nat) : Stamped N new where
  inv := new_inv N
  inCycle := by
    intro index
    simp [new, empty, nextGeneration, InCycle, generationCycle]

variable {index : Nat} {label : TableCall × TableOutcome}

theorem Stamped.generation (stamped : Stamped N table) (used : (table.slots index).generation ≠ 0) :
    InCycle (table.slots index).generation := by
  rw [← nextGeneration_used used]
  exact stamped.inCycle index

theorem Stamped.step (stamped : Stamped N table) (step : Step N table label next) :
    Stamped N next := by
  obtain ⟨inv, effect⟩ := slotEffect_of_step stamped.inv step
  refine ⟨inv, fun other => ?_⟩
  cases effect with
  | unchanged same =>
    rw [same]
    exact stamped.inCycle other
  | filled index slot _ generation nonzero slots _ =>
    rw [slots]
    by_cases here : other = index
    · rw [here, update_self, nextGeneration_used nonzero, generation]
      exact stamped.inCycle index
    · rw [update_of_ne here]
      exact stamped.inCycle other
  | emptied index used slots =>
    rw [slots]
    by_cases here : other = index
    · rw [here, update_self,
        nextGeneration_invalidate (stamped.generation used)]
      exact inCycle_generationAfter _ _
    · rw [update_of_ne here]
      exact stamped.inCycle other

/-- The slot has been filled this often since the generation ended in it. -/
structure Reused (slot : CapSlot) (generation turns : Nat) : Prop where
  filled : slot.generation ≠ 0 → 0 < turns ∧ slot.generation = generationAfter generation turns
  empty : slot.generation = 0 → slot.nextGeneration = generationAfter generation (turns + 1)

theorem Stamped.reused_of_gone {generation : Nat} (stamped : Stamped N table)
    (live : table.Live N index generation) (step : Step N table label next)
    (gone : ¬ next.Live N index generation) : Reused (next.slots index) generation 0 := by
  obtain ⟨below, nonzero, same⟩ := live
  have keeps : next.slots index ≠ table.slots index := by
    intro unchanged
    exact gone ⟨below, nonzero, unchanged ▸ same⟩
  cases (slotEffect_of_step stamped.inv step).2 with
  | unchanged slots => exact absurd (congrFun slots index) keeps
  | filled other slot free _ _ slots _ =>
    have different : index ≠ other := by
      rintro rfl
      exact nonzero (same.symm.trans free)
    exact absurd (by rw [slots, update_of_ne different]) keeps
  | emptied other used slots =>
    by_cases here : index = other
    · subst here
      have freed : next.slots index = (table.slots index).invalidate := by
        rw [slots, update_self]
      constructor
      · intro stillUsed
        rw [freed] at stillUsed
        exact absurd rfl stillUsed
      · intro _
        rw [freed, nextGeneration_invalidate (stamped.generation used), same]
    · exact absurd (by rw [slots, update_of_ne here]) keeps

theorem Reused.step {generation turns : Nat} (stamped : Stamped N table)
    (reused : Reused (table.slots index) generation turns) (step : Step N table label next) :
    Reused (next.slots index) generation turns ∨
      Reused (next.slots index) generation (turns + 1) ∧
        returnsIndex (asU32 index) label = true := by
  cases (slotEffect_of_step stamped.inv step).2 with
  | unchanged slots =>
    rw [slots]
    exact .inl reused
  | filled other slot free stamp nonzero slots returned =>
    rw [slots]
    by_cases here : index = other
    · subst here
      rw [update_self]
      refine .inr ⟨⟨fun _ => ⟨Nat.succ_pos turns, ?_⟩, fun empty => absurd empty nonzero⟩, returned⟩
      rw [stamp]
      exact reused.empty free
    · rw [update_of_ne here]
      exact .inl reused
  | emptied other used slots =>
    rw [slots]
    by_cases here : index = other
    · subst here
      rw [update_self]
      refine .inl ⟨fun stillUsed => absurd rfl stillUsed, fun _ => ?_⟩
      rw [nextGeneration_invalidate (stamped.generation used), (reused.filled used).2,
        generationAfter_add]
    · rw [update_of_ne here]
      exact .inl reused

theorem stamped_run {labels : List (TableCall × TableOutcome)} (stamped : Stamped N table)
    (run : Run (Step N) table labels next) : Stamped N next :=
  run.stateInvariant stamped fun _ _ _ stamped step => stamped.step step

theorem reused_run {labels : List (TableCall × TableOutcome)} {generation : Nat}
    (stamped : Stamped N table) (reused : Reused (table.slots index) generation 0)
    (run : Run (Step N) table labels next) :
    ∃ turns, turns ≤ labels.countP (returnsIndex (asU32 index)) ∧
      Reused (next.slots index) generation turns := by
  induction run with
  | nil => exact ⟨0, Nat.zero_le _, reused⟩
  | @snoc labels label middle final before step ih =>
    obtain ⟨turns, bounded, reused⟩ := ih
    simp only [List.countP_append, List.countP_singleton]
    rcases reused.step (stamped_run stamped before) step with kept | ⟨filled, returned⟩
    · exact ⟨turns, by omega, kept⟩
    · refine ⟨turns + 1, ?_, filled⟩
      rw [if_pos returned]
      omega

def sampleInsert : TableCall := .insertRoot ⟨7, .region, .read, 0⟩ ⟨1⟩ 0

structure FreeAt (table : CapabilityTable) (generation : Nat) : Prop where
  stamped : Stamped 1 table
  free : (table.slots 0).generation = 0
  stamp : (table.slots 0).nextGeneration = generation

theorem freeAt_new : FreeAt new 1 := ⟨stamped_new 1, rfl, rfl⟩

theorem FreeAt.dead {generation other : Nat} (freeAt : FreeAt table generation) :
    ¬ table.Live 1 0 other :=
  fun live => live.2.1 (live.2.2.symm.trans freeAt.free)

theorem FreeAt.insert {generation : Nat} (freeAt : FreeAt table generation) :
    ∃ next, Step 1 table (sampleInsert, .ok (.handle 0 generation)) next ∧
      next.Live 1 0 generation := by
  have found : findFreeSlot 1 table = .ok (0, { table with freeHint := 1 }) := by
    have hint : table.freeHint = 0 ∨ table.freeHint = 1 := by
      have := freeAt.stamped.inv.hint
      omega
    rcases hint with hint | hint <;> simp [findFreeSlot, hint, freeAt.free]
  have inCycle := freeAt.stamped.inCycle 0
  rw [freeAt.stamp] at inCycle
  refine ⟨{ slots := update table.slots 0 ⟨⟨7, .region, .read, 0⟩, generation, ⟨1⟩, 0, u32Max, 0⟩
            count := table.count + 1
            freeHint := 1 }, ?_, by decide, Nat.ne_of_gt inCycle.1, by simp⟩
  simp only [Step, apply, sampleInsert, insertRoot, insertDerived, found, withInserted, freeAt.stamp]
  rfl

theorem Stamped.remove {generation : Nat} (stamped : Stamped 1 table)
    (live : table.Live 1 0 generation) :
    ∃ next, Step 1 table (.remove 0 generation, .ok .done) next ∧
      FreeAt next (generationAfter generation 1) := by
  have used : (table.slots 0).generation ≠ 0 := live.2.2.symm ▸ live.2.1
  have removed : Step 1 table (.remove 0 generation, .ok .done) (table.forceInvalidate 1 0) := by
    simp [Step, apply, CapabilityTable.remove, live_iff_lookup.mp live]
  have freed : (table.forceInvalidate 1 0).slots 0 = (table.slots 0).invalidate := by
    rw [forceInvalidate_slots, if_pos ⟨rfl, by decide, used⟩]
  refine ⟨_, removed, stamped.step removed, ?_, ?_⟩
  · rw [freed, invalidate_generation]
  · rw [freed, nextGeneration_invalidate (stamped.generation used), live.2.2]

theorem FreeAt.recycle {generation : Nat} (freeAt : FreeAt table generation) (turns : Nat) :
    ∃ labels next, Run (Step 1) table labels next ∧
      FreeAt next (generationAfter generation turns) := by
  induction turns with
  | zero =>
    have inCycle := freeAt.stamp ▸ freeAt.stamped.inCycle 0
    rw [generationAfter_zero inCycle]
    exact ⟨[], table, .nil, freeAt⟩
  | succ turns ih =>
    obtain ⟨labels, middle, run, here⟩ := ih
    obtain ⟨filled, inserted, live⟩ := here.insert
    obtain ⟨next, removed, freed⟩ := (here.stamped.step inserted).remove live
    rw [generationAfter_add] at freed
    exact ⟨_, next, (run.snoc inserted).snoc removed, freed⟩

/-- A handle that was removed or invalidated resolves in no later state, until
insertions have returned its index for a whole cycle of generations. -/
theorem staleHandles (N : Nat) {first rest : List (TableCall × TableOutcome)}
    {label : TableCall × TableOutcome} {before after final : CapabilityTable}
    {index generation : Nat} (run : Run (Step N) new first before)
    (live : before.Live N index generation) (step : Step N before label after)
    (gone : ¬ after.Live N index generation) (later : Run (Step N) after rest final)
    (few : rest.countP (returnsIndex (asU32 index)) < generationCycle) :
    ∃ e, final.lookup N index generation = .error e := by
  have stamped := stamped_run (stamped_new N) run
  have inCycle : InCycle generation := by
    have used : (before.slots index).generation ≠ 0 := live.2.2.symm ▸ live.2.1
    exact live.2.2 ▸ stamped.generation used
  obtain ⟨turns, bounded, reused⟩ :=
    reused_run (stamped.step step) (stamped.reused_of_gone live step gone) later
  cases found : final.lookup N index generation with
  | error e => exact ⟨e, rfl⟩
  | ok slot =>
    obtain ⟨_, rfl, used, same⟩ := lookup_eq_ok.mp found
    obtain ⟨positive, stamp⟩ := reused.filled used
    exact absurd (stamp.symm.trans same) (generationAfter_ne inCycle positive (by omega))

/-- A handle removed at once stays dead while its slot holds another capability. -/
theorem staleHandles_sampleInsert :
    ∃ before after final, Run (Step 1) new [(sampleInsert, .ok (.handle 0 1))] before ∧
      Step 1 before (.remove 0 1, .ok .done) after ∧
      Run (Step 1) after [(sampleInsert, .ok (.handle 0 2))] final ∧
      ∃ e, final.lookup 1 0 1 = .error e := by
  obtain ⟨before, inserted, live⟩ := freeAt_new.insert
  obtain ⟨after, removed, freed⟩ := (freeAt_new.stamped.step inserted).remove live
  obtain ⟨final, insertedAgain, _⟩ := freed.insert
  exact ⟨before, after, final, .single inserted, removed, .single insertedAgain,
    staleHandles 1 (.single inserted) live removed freed.dead (.single insertedAgain) (by decide)⟩

/-- After `2^32 - 2` further insertions the removed handle resolves again. -/
theorem staleHandles_cycle :
    ∃ first before label after rest final, Run (Step 1) new first before ∧
      before.Live 1 0 1 ∧ Step 1 before label after ∧ ¬ after.Live 1 0 1 ∧
      Run (Step 1) after rest final ∧ ∃ slot, final.lookup 1 0 1 = .ok slot := by
  obtain ⟨before, inserted, live⟩ := freeAt_new.insert
  obtain ⟨after, removed, freed⟩ := (freeAt_new.stamped.step inserted).remove live
  obtain ⟨labels, middle, recycled, freeAgain⟩ := freed.recycle (generationCycle - 1)
  have firstGeneration : generationAfter (generationAfter 1 1) (generationCycle - 1) = 1 := by
    rw [generationAfter_add]
    exact generationAfter_cycle ⟨Nat.le_refl 1, by decide⟩
  rw [firstGeneration] at freeAgain
  obtain ⟨final, insertedAgain, liveAgain⟩ := freeAgain.insert
  exact ⟨_, before, _, after, _, final, .single inserted, live, removed, freed.dead,
    recycled.snoc insertedAgain, _, live_iff_lookup.mp liveAgain⟩

end CapabilityTable

end Rvm.Cap
