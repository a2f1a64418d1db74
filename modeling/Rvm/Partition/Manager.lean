import Rvm.Foundation.Slots
import Rvm.Types.Basic
import Rvm.Types.Capability

/-!
Owns the partition manager of `rvm-partition/src/manager.rs` with the lifecycle transitions
and the merge precondition: slots, a direct index with a scan behind it, and wrapping
identifiers.
-/

set_option linter.dupNamespace false

namespace Rvm.Partition

open Function Option

def maxPartitions : Nat := 256

/-- Identifiers below this are in the direct index. -/
def idIndexSize : Nat := 4096

inductive PartitionState where
  | created | running | suspended | destroyed | hibernated
deriving DecidableEq, Repr

inductive PartitionType where
  | agent | infrastructure | root
deriving DecidableEq, Repr

structure Partition where
  id : PartitionId
  state : PartitionState
  partitionType : PartitionType
  coherence : CoherenceScore
  cutPressure : CutPressure
  vcpuCount : Nat
  cpuAffinity : Nat
  epoch : Nat
deriving DecidableEq, Repr

def Partition.new (id : PartitionId) (partitionType : PartitionType) (vcpuCount epoch : Nat) :
    Partition :=
  ⟨id, .created, partitionType, .fromBasisPoints 5000, .zero, vcpuCount, u64Max, epoch⟩

def validTransition : PartitionState → PartitionState → Bool
  | .created, .running | .suspended, .running => true
  | .running, .suspended => true
  | .created, .destroyed | .running, .destroyed | .suspended, .destroyed
  | .hibernated, .destroyed => true
  | .running, .hibernated | .suspended, .hibernated => true
  | .hibernated, .created => true
  | _, _ => false

def mergePreconditionsMet (coherenceA coherenceB : CoherenceScore) : Bool :=
  coherenceA.meetsThreshold .defaultMergeThreshold &&
    coherenceB.meetsThreshold .defaultMergeThreshold

inductive MergePreconditionError where
  | insufficientCoherence | notAdjacent | resourceLimitExceeded
deriving DecidableEq, Repr

/-- The extended check, which also asks for adjacency and room. -/
def mergePreconditionsFull (coherenceA coherenceB : CoherenceScore) (areAdjacent : Bool)
    (combinedCapCount maxCapsPerPartition : Nat) : Except MergePreconditionError Unit :=
  if mergePreconditionsMet coherenceA coherenceB = false then .error .insufficientCoherence
  else if areAdjacent = false then .error .notAdjacent
  else if combinedCapCount > maxCapsPerPartition then .error .resourceLimitExceeded
  else .ok ()

structure PartitionManager where
  partitions : Nat → Option Partition
  idToSlot : Nat → Option Nat
  count : Nat
  nextId : Nat

namespace PartitionManager

/-- Identifier `0` is reserved for the hypervisor. -/
def new : PartitionManager := ⟨fun _ => none, fun _ => none, 0, 1⟩

/-- The partition in a slot, if it has this identifier. -/
def partitionIn (manager : PartitionManager) (id : PartitionId) (i : Nat) : Option Partition :=
  (manager.partitions i).filter fun partition => partition.id = id

def place (manager : PartitionManager) (i : Nat) (partition : Partition) : PartitionManager where
  partitions := update manager.partitions i (some partition)
  idToSlot :=
    if partition.id.asU32 < idIndexSize then
      update manager.idToSlot partition.id.asU32 (some (min i 255))
    else manager.idToSlot
  count := manager.count + 1
  nextId := asU32 (manager.nextId + 1)

def create (manager : PartitionManager) (partitionType : PartitionType) (vcpuCount epoch : Nat) :
    Except RvmError (PartitionId × PartitionManager) :=
  if manager.count ≥ maxPartitions then .error .partitionLimitExceeded
  else
    match (List.range maxPartitions).find? fun i => (manager.partitions i).isNone with
    | some i =>
      .ok (⟨manager.nextId⟩,
        manager.place i (.new ⟨manager.nextId⟩ partitionType vcpuCount epoch))
    | none => .error .internalError

/-- The slot of a partition: the direct index first, then a linear scan. -/
def slotOf (manager : PartitionManager) (id : PartitionId) : Option Nat :=
  let indexed :=
    if id.asU32 < idIndexSize then
      (manager.idToSlot id.asU32).filter fun i => (manager.partitionIn id i).isSome
    else none
  indexed.or ((List.range maxPartitions).find? fun i => (manager.partitionIn id i).isSome)

def get (manager : PartitionManager) (id : PartitionId) : Option Partition :=
  (manager.slotOf id).bind manager.partitions

def modify (manager : PartitionManager) (id : PartitionId) (change : Partition → Partition) :
    PartitionManager :=
  match manager.slotOf id with
  | some i =>
    { manager with
      partitions := update manager.partitions i ((manager.partitions i).map change) }
  | none => manager

def activeIds (manager : PartitionManager) : List PartitionId :=
  (List.range maxPartitions).filterMap fun i => (manager.partitions i).map Partition.id

/-- Empty a slot and the index entry of its identifier. -/
def vacate (manager : PartitionManager) (id : PartitionId) (i : Nat) : PartitionManager where
  partitions := update manager.partitions i none
  idToSlot :=
    if id.asU32 < idIndexSize then update manager.idToSlot id.asU32 none
    else manager.idToSlot
  count := manager.count - 1
  nextId := manager.nextId

def remove (manager : PartitionManager) (id : PartitionId) : Except RvmError PartitionManager :=
  match (List.range maxPartitions).find? fun i => (manager.partitionIn id i).isSome with
  | some i => .ok (manager.vacate id i)
  | none => .error .partitionNotFound

section Specifications

variable {manager next : PartitionManager} {id : PartitionId}

theorem partitionIn_eq_some {i : Nat} {partition : Partition} :
    manager.partitionIn id i = some partition ↔
      manager.partitions i = some partition ∧ partition.id = id := by
  rw [partitionIn, filter_eq_some_iff, decide_eq_true_iff]

theorem not_held_of_get_eq_none (missing : manager.get id = none) {i : Nat} {partition : Partition}
    (below : i < maxPartitions) (held : manager.partitions i = some partition) :
    partition.id ≠ id := by
  intro sameId
  have heldIn : (manager.partitionIn id i).isSome = true :=
    isSome_iff_exists.mpr ⟨partition, partitionIn_eq_some.mpr ⟨held, sameId⟩⟩
  cases slot : manager.slotOf id with
  | none =>
    rw [slotOf, or_eq_none_iff] at slot
    exact List.find?_eq_none.mp slot.2 i (List.mem_range.mpr below) heldIn
  | some j =>
    have occupied : (manager.partitionIn id j).isSome = true := by
      rw [slotOf, or_eq_some_iff] at slot
      cases slot with
      | inl indexed =>
        split at indexed
        · exact (filter_eq_some_iff.mp indexed).2
        · cases indexed
      | inr scanned =>
        have isSome := List.find?_some scanned.2
        exact isSome
    obtain ⟨other, otherIn⟩ := isSome_iff_exists.mp occupied
    have otherHeld := (partitionIn_eq_some.mp otherIn).1
    rw [get, slot] at missing
    exact absurd (otherHeld.symm.trans missing) (some_ne_none other)

theorem create_places {partitionType : PartitionType} {vcpuCount epoch : Nat}
    (created : manager.create partitionType vcpuCount epoch = .ok (id, next)) :
    id = ⟨manager.nextId⟩ ∧ manager.count < maxPartitions ∧
      ∃ i, i < maxPartitions ∧ manager.partitions i = none ∧
        next = manager.place i (.new id partitionType vcpuCount epoch) := by
  unfold create at created
  split at created
  · cases created
  · rename_i room
    split at created
    · rename_i i free
      cases created
      have isFree := List.find?_some free
      exact ⟨rfl, Nat.not_le.mp room, i, List.mem_range.mp (List.mem_of_find?_eq_some free),
        isNone_iff_eq_none.mp isFree, rfl⟩
    · cases created

theorem create_spec {partitionType : PartitionType} {vcpuCount epoch : Nat}
    (created : manager.create partitionType vcpuCount epoch = .ok (id, next)) :
    id = ⟨manager.nextId⟩ ∧ manager.count < maxPartitions ∧
      ∃ i, i < maxPartitions ∧ manager.partitions i = none ∧
        next.partitions =
          update manager.partitions i (some (.new id partitionType vcpuCount epoch)) := by
  obtain ⟨isNext, room, i, below, free, placed⟩ := create_places created
  exact ⟨isNext, room, i, below, free, congrArg partitions placed⟩

theorem remove_vacates (removed : manager.remove id = .ok next) :
    ∃ i partition, i < maxPartitions ∧ manager.partitions i = some partition ∧
      partition.id = id ∧ next = manager.vacate id i := by
  unfold remove at removed
  split at removed
  · rename_i i found
    cases removed
    have isSome := List.find?_some found
    obtain ⟨partition, heldIn⟩ := isSome_iff_exists.mp isSome
    obtain ⟨held, sameId⟩ := partitionIn_eq_some.mp heldIn
    exact ⟨i, partition, List.mem_range.mp (List.mem_of_find?_eq_some found), held, sameId, rfl⟩
  · cases removed

theorem remove_spec (removed : manager.remove id = .ok next) :
    ∃ i partition, i < maxPartitions ∧ manager.partitions i = some partition ∧
      partition.id = id ∧ next.partitions = update manager.partitions i none := by
  obtain ⟨i, partition, below, held, sameId, vacated⟩ := remove_vacates removed
  exact ⟨i, partition, below, held, sameId, congrArg partitions vacated⟩

theorem modify_ids {change : Partition → Partition}
    (keeps : ∀ partition, (change partition).id = partition.id) (i : Nat) :
    ((manager.modify id change).partitions i).map Partition.id =
      (manager.partitions i).map Partition.id := by
  unfold modify
  split
  · rename_i j _
    dsimp only
    by_cases same : i = j
    · subst same
      rw [update_self, map_map]
      congr 1
      funext partition
      exact keeps partition
    · rw [update_of_ne same]
  · rfl

theorem mem_activeIds :
    id ∈ manager.activeIds ↔
      ∃ i partition, i < maxPartitions ∧ manager.partitions i = some partition ∧
        partition.id = id := by
  rw [activeIds, List.mem_filterMap]
  constructor
  · rintro ⟨i, inRange, mapped⟩
    obtain ⟨partition, held, sameId⟩ := map_eq_some_iff.mp mapped
    exact ⟨i, partition, List.mem_range.mp inRange, held, sameId⟩
  · rintro ⟨i, partition, below, held, sameId⟩
    exact ⟨i, List.mem_range.mpr below, map_eq_some_iff.mpr ⟨partition, held, sameId⟩⟩

end Specifications

section Counts

open Foundation

variable {manager next : PartitionManager} {id : PartitionId}

def Counted (manager : PartitionManager) : Prop :=
  manager.count = occupied maxPartitions fun i => (manager.partitions i).isSome

theorem counted_new : Counted .new := occupied_none.symm

theorem Counted.congr (counted : manager.Counted) (sameCount : next.count = manager.count)
    (sameIds : ∀ i, (next.partitions i).map Partition.id = (manager.partitions i).map Partition.id) :
    next.Counted := by
  rw [Counted, sameCount, counted]
  refine (occupied_congr fun i _ => ?_).symm
  have mapped := congrArg Option.isSome (sameIds i)
  rwa [isSome_map, isSome_map] at mapped

theorem Counted.create (counted : manager.Counted) {partitionType : PartitionType}
    {vcpuCount epoch : Nat}
    (created : manager.create partitionType vcpuCount epoch = .ok (id, next)) : next.Counted := by
  obtain ⟨_, _, i, below, free, rfl⟩ := create_places created
  exact (congrArg (· + 1) counted).trans (occupied_filled below free).symm

theorem Counted.remove (counted : manager.Counted) (removed : manager.remove id = .ok next) :
    next.Counted := by
  obtain ⟨i, partition, below, held, _, rfl⟩ := remove_vacates removed
  have emptied := occupied_emptied below held
  rw [← counted] at emptied
  exact (Nat.eq_sub_of_add_eq emptied).symm

theorem Counted.create_ok (counted : manager.Counted) (room : manager.count < maxPartitions)
    (partitionType : PartitionType) (vcpuCount epoch : Nat) :
    ∃ created, manager.create partitionType vcpuCount epoch = .ok created := by
  unfold PartitionManager.create
  rw [if_neg (Nat.not_le.mpr room)]
  cases found : (List.range maxPartitions).find? fun i => (manager.partitions i).isNone with
  | some i => exact ⟨_, rfl⟩
  | none =>
    obtain ⟨i, below, free⟩ := exists_free (counted ▸ room)
    have missing := List.find?_eq_none.mp found i (List.mem_range.mpr below)
    rw [isSome_eq_false_iff] at free
    exact absurd free missing

end Counts

end PartitionManager

end Rvm.Partition
