import Rvm.Types.Capability

/-!
Owns the capability table of `rvm-cap/src/table.rs`: slots with generation
counters, free-slot search, insertion, lookup and invalidation, and one spec
lemma for each of them. Tables are functions of the slot index; only indices
below `N` are meaningful.
-/

namespace Rvm.Cap

open Function

inductive CapError where
  | invalidHandle | staleHandle | tableFull | revoked | delegationDepthExceeded
  | grantNotPermitted | rightsEscalation | treeFull | typeMismatch | consumed
deriving DecidableEq, Repr

structure CapSlot where
  token : CapToken
  /-- Generation `0` is the free sentinel. -/
  generation : Nat
  owner : PartitionId
  depth : Nat
  parentIndex : Nat
  badge : Nat
deriving DecidableEq, Repr

namespace CapSlot

def empty : CapSlot where
  token := ⟨0, .region, .empty, 0⟩
  generation := 0
  owner := ⟨0⟩
  depth := 0
  parentIndex := u32Max
  badge := 0

def isValid (slot : CapSlot) : Bool := slot.generation != 0

/-- Bump the generation (skipping the sentinel), stash it in `parentIndex` and
mark the slot free. -/
def invalidate (slot : CapSlot) : CapSlot :=
  let nextGen := (slot.generation + 1) % 4294967296
  let safeGen := if nextGen = 0 then 1 else nextGen
  { slot with parentIndex := safeGen, generation := 0 }

def nextGeneration (slot : CapSlot) : Nat :=
  if slot.generation ≠ 0 then slot.generation
  else if slot.parentIndex = u32Max then 1
  else slot.parentIndex

@[simp] theorem isValid_eq_true (slot : CapSlot) :
    slot.isValid = true ↔ slot.generation ≠ 0 := by
  simp [isValid]

@[simp] theorem isValid_eq_false (slot : CapSlot) :
    slot.isValid = false ↔ slot.generation = 0 := by
  simp [isValid]

@[simp] theorem invalidate_generation (slot : CapSlot) : slot.invalidate.generation = 0 := rfl

theorem invalidate_parentIndex_ne_zero (slot : CapSlot) : slot.invalidate.parentIndex ≠ 0 := by
  simp only [invalidate]
  split <;> omega

theorem nextGeneration_ne_zero {slot : CapSlot} (stashed : slot.parentIndex ≠ 0) :
    slot.nextGeneration ≠ 0 := by
  unfold nextGeneration
  split
  · assumption
  · split
    · decide
    · exact stashed

end CapSlot

structure CapabilityTable where
  slots : Nat → CapSlot
  count : Nat
  freeHint : Nat

namespace CapabilityTable

def new : CapabilityTable := ⟨fun _ => CapSlot.empty, 0, 0⟩

/-- The first free slot at or after `freeHint`, else the first one before it. -/
def findFreeSlot (N : Nat) (table : CapabilityTable) : Except CapError (Nat × CapabilityTable) :=
  match (List.range' table.freeHint (N - table.freeHint)).find?
      (fun i => !(table.slots i).isValid) with
  | some i => .ok (i, { table with freeHint := i + 1 })
  | none =>
    match (List.range table.freeHint).find? (fun i => !(table.slots i).isValid) with
    | some i => .ok (i, { table with freeHint := i + 1 })
    | none => .error .tableFull

/-- Insertion into the slot found; the handle carries the index as a `u32`. -/
def insertDerived (N : Nat) (table : CapabilityTable) (token : CapToken) (owner : PartitionId)
    (depth parentIndex badge : Nat) : Except CapError ((Nat × Nat) × CapabilityTable) :=
  match findFreeSlot N table with
  | .error e => .error e
  | .ok (index, table) =>
    let generation := (table.slots index).nextGeneration
    let slot : CapSlot := ⟨token, generation, owner, depth, parentIndex, badge⟩
    .ok ((asU32 index, generation),
      { table with slots := update table.slots index slot, count := table.count + 1 })

/-- A root is inserted at depth `0` without a parent. -/
def insertRoot (N : Nat) (table : CapabilityTable) (token : CapToken) (owner : PartitionId)
    (badge : Nat) : Except CapError ((Nat × Nat) × CapabilityTable) :=
  insertDerived N table token owner 0 u32Max badge

def lookup (N : Nat) (table : CapabilityTable) (index generation : Nat) :
    Except CapError CapSlot :=
  if index ≥ N then .error .invalidHandle
  else
    let slot := table.slots index
    if !slot.isValid then .error .invalidHandle
    else if slot.generation ≠ generation then .error .staleHandle
    else .ok slot

/-- Invalidation without a generation check (revocation). -/
def forceInvalidate (N : Nat) (table : CapabilityTable) (index : Nat) : CapabilityTable :=
  if index < N ∧ (table.slots index).isValid then
    { slots := update table.slots index (table.slots index).invalidate
      count := table.count - 1
      freeHint := if index < table.freeHint then index else table.freeHint }
  else table

def remove (N : Nat) (table : CapabilityTable) (index generation : Nat) :
    Except CapError CapabilityTable :=
  match lookup N table index generation with
  | .error e => .error e
  | .ok _ => .ok (forceInvalidate N table index)

/-- The table's own invariant: the hint is a position of the array (or its
end), and a free slot has a nonzero stashed generation. -/
structure Inv (N : Nat) (table : CapabilityTable) : Prop where
  hint : table.freeHint ≤ N
  stashed : ∀ index, (table.slots index).generation = 0 → (table.slots index).parentIndex ≠ 0

theorem new_inv (N : Nat) : Inv N new where
  hint := Nat.zero_le N
  stashed := by
    intro index _
    simp [new, CapSlot.empty, u32Max]

variable {N : Nat} {table : CapabilityTable} {index generation : Nat} {after : CapabilityTable}

theorem lookup_eq_ok {slot : CapSlot} :
    lookup N table index generation = .ok slot ↔
      index < N ∧ table.slots index = slot ∧ slot.generation ≠ 0 ∧
        slot.generation = generation := by
  unfold lookup
  split
  · simp; omega
  · simp only [Bool.not_eq_eq_eq_not, Bool.not_true, CapSlot.isValid_eq_false]
    constructor
    · intro found
      split at found
      · cases found
      · split at found
        · cases found
        · cases found
          exact ⟨by omega, rfl, by assumption, by omega⟩
    · rintro ⟨_, rfl, valid, same⟩
      simpa [same] using same ▸ valid

def Live (N : Nat) (table : CapabilityTable) (index generation : Nat) : Prop :=
  index < N ∧ generation ≠ 0 ∧ (table.slots index).generation = generation

theorem live_iff_lookup :
    Live N table index generation ↔ lookup N table index generation = .ok (table.slots index) := by
  rw [lookup_eq_ok]
  constructor
  · rintro ⟨below, nonzero, same⟩
    exact ⟨below, rfl, same ▸ nonzero, same⟩
  · rintro ⟨below, -, nonzero, same⟩
    exact ⟨below, same ▸ nonzero, same⟩

theorem findFreeSlot_spec (inv : Inv N table) (found : findFreeSlot N table = .ok (index, after)) :
    index < N ∧ (table.slots index).generation = 0 ∧
      after = { table with freeHint := index + 1 } := by
  have hintLe := inv.hint
  unfold findFreeSlot at found
  split at found
  · next i search =>
      cases found
      have member := List.mem_of_find?_eq_some search
      have free := List.find?_some search
      simp only [List.mem_range'_1] at member
      exact ⟨by omega, by simpa using free, rfl⟩
  · split at found
    · next i search =>
        cases found
        have member := List.mem_of_find?_eq_some search
        have free := List.find?_some search
        simp only [List.mem_range] at member
        exact ⟨by omega, by simpa using free, rfl⟩
    · cases found

theorem insertDerived_spec {token : CapToken} {owner : PartitionId}
    {depth parentIndex badge handleIndex : Nat} (inv : Inv N table)
    (inserted : insertDerived N table token owner depth parentIndex badge =
      .ok ((handleIndex, generation), after)) :
    ∃ index hinted, findFreeSlot N table = .ok (index, hinted) ∧ index < N ∧
      (table.slots index).generation = 0 ∧
      handleIndex = asU32 index ∧ generation = (table.slots index).nextGeneration ∧
      generation ≠ 0 ∧
      after.slots = update table.slots index
        ⟨token, generation, owner, depth, parentIndex, badge⟩ ∧
      after.count = table.count + 1 ∧ after.freeHint = index + 1 := by
  unfold insertDerived at inserted
  split at inserted
  · cases inserted
  · next index hinted found =>
      cases inserted
      obtain ⟨below, free, rfl⟩ := findFreeSlot_spec inv found
      exact ⟨index, _, found, below, free, rfl, rfl,
        CapSlot.nextGeneration_ne_zero (inv.stashed index free), rfl, rfl, rfl⟩

theorem insertDerived_inv {token : CapToken} {owner : PartitionId} {depth parentIndex badge : Nat}
    {handle : Nat × Nat} (inv : Inv N table)
    (inserted : insertDerived N table token owner depth parentIndex badge = .ok (handle, after)) :
    Inv N after := by
  obtain ⟨index, -, -, below, -, -, -, nonzero, slots, -, hint⟩ := insertDerived_spec inv inserted
  constructor
  · omega
  · intro other free
    rw [slots] at free ⊢
    by_cases same : other = index
    · subst same
      simp only [update_self] at free
      exact absurd free nonzero
    · rw [update_of_ne same] at free ⊢
      exact inv.stashed other free

theorem forceInvalidate_slots (index other : Nat) :
    (forceInvalidate N table index).slots other =
      if other = index ∧ index < N ∧ (table.slots index).generation ≠ 0 then
        (table.slots other).invalidate
      else table.slots other := by
  unfold forceInvalidate
  by_cases live : index < N ∧ (table.slots index).generation ≠ 0
  · rw [if_pos (by simpa using live)]
    by_cases same : other = index
    · subst same
      simp [live]
    · simp [same]
  · rw [if_neg (by simpa using live), if_neg (fun both => live both.2)]

theorem forceInvalidate_inv (inv : Inv N table) (index : Nat) :
    Inv N (forceInvalidate N table index) := by
  have hintLe := inv.hint
  constructor
  · unfold forceInvalidate
    split
    · dsimp only
      split <;> omega
    · exact hintLe
  · intro other free
    rw [forceInvalidate_slots] at free ⊢
    split
    · exact CapSlot.invalidate_parentIndex_ne_zero _
    · next untouched =>
        rw [if_neg untouched] at free
        exact inv.stashed other free

/-- Invalidating a list of slots touches exactly the live slots it names, in
any order and however often they are named. -/
theorem foldl_forceInvalidate_slots (indices : List Nat) (other : Nat) :
    (indices.foldl (forceInvalidate N) table).slots other =
      if other ∈ indices ∧ other < N ∧ (table.slots other).generation ≠ 0 then
        (table.slots other).invalidate
      else table.slots other := by
  induction indices generalizing table with
  | nil => simp
  | cons index rest ih =>
    rw [List.foldl_cons, ih, forceInvalidate_slots]
    by_cases same : other = index
    · subst same
      by_cases live : other < N ∧ (table.slots other).generation ≠ 0
      · simp [live]
      · have untouched : ¬ (other = other ∧ other < N ∧ (table.slots other).generation ≠ 0) :=
          fun all => live all.2
        rw [if_neg untouched, if_neg fun all => live all.2, if_neg fun all => live all.2]
    · simp [same]

theorem foldl_forceInvalidate_inv (inv : Inv N table) (indices : List Nat) :
    Inv N (indices.foldl (forceInvalidate N) table) := by
  induction indices generalizing table with
  | nil => exact inv
  | cons index rest ih => exact ih (forceInvalidate_inv inv index)

end CapabilityTable

end Rvm.Cap
