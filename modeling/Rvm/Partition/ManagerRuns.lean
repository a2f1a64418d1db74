import Rvm.Foundation.Run
import Rvm.Partition.Manager

/-!
Owns the identifiers of the partition manager over runs. They come from a counter of 32
bits, and until it wraps each is handed out once. The run that hands out the hypervisor's
stands at the end.
-/

namespace Rvm.Partition

open Foundation List Function Option

inductive PartitionCall where
  | create (partitionType : PartitionType) (vcpuCount epoch : Nat)
  | remove (id : PartitionId)
deriving DecidableEq, Repr

/-- What a successful call returns. -/
inductive PartitionReply where
  | created (id : PartitionId)
  | removed
deriving DecidableEq, Repr

abbrev PartitionEvent := PartitionCall × Except RvmError PartitionReply

def PartitionEvent.handedOut : PartitionEvent → Option PartitionId
  | (_, .ok (.created id)) => some id
  | _ => none

/-- The identifiers handed out, in order. -/
def issued (history : List PartitionEvent) : List PartitionId :=
  history.filterMap PartitionEvent.handedOut

theorem issued_snoc (history : List PartitionEvent) (event : PartitionEvent) :
    issued (history ++ [event]) = issued history ++ event.handedOut.toList := by
  rw [issued, filterMap_append, ← issued]
  cases handed : event.handedOut <;> simp [handed]

namespace PartitionManager

def call (manager : PartitionManager) :
    PartitionCall → Except RvmError PartitionReply × PartitionManager
  | .create partitionType vcpuCount epoch =>
    match manager.create partitionType vcpuCount epoch with
    | .ok (id, next) => (.ok (.created id), next)
    | .error e => (.error e, manager)
  | .remove id =>
    match manager.remove id with
    | .ok next => (.ok .removed, next)
    | .error e => (.error e, manager)

def Event (manager : PartitionManager) (event : PartitionEvent) (next : PartitionManager) : Prop :=
  manager.call event.1 = (event.2, next)

def scanSlot (manager : PartitionManager) (id : PartitionId) : Option Nat :=
  (List.range maxPartitions).find? fun i => (manager.partitionIn id i).isSome

def scan (manager : PartitionManager) (id : PartitionId) : Option Partition :=
  ((List.range maxPartitions).filterMap manager.partitions).find? fun partition =>
    partition.id = id

def Unique (manager : PartitionManager) : Prop :=
  ∀ i j left right, i < maxPartitions → j < maxPartitions →
    manager.partitions i = some left → manager.partitions j = some right →
    left.id = right.id → i = j

/-- What the manager promises after handing out some identifiers: they are distinct, the count
counts, and every access by identifier is a linear search. -/
structure Exact (ids : List PartitionId) (manager : PartitionManager) : Prop where
  unique : manager.Unique
  notHypervisor : ∀ i partition, i < maxPartitions → manager.partitions i = some partition →
    partition.id ≠ .hypervisor
  once : ∀ i partition, i < maxPartitions → manager.partitions i = some partition →
    ids.count partition.id = 1
  counted : manager.Counted
  got : ∀ id, manager.get id = manager.scan id
  gotMut : ∀ id change, manager.modify id change =
    (manager.scanSlot id).elim manager fun i =>
      { manager with
        partitions := update manager.partitions i ((manager.partitions i).map change) }
  removed : ∀ id, manager.remove id =
    (manager.scanSlot id).elim (.error .partitionNotFound) fun i => .ok (manager.vacate id i)
  indexed : ∀ id, id.asU32 < idIndexSize → manager.idToSlot id.asU32 = manager.scanSlot id

variable {manager next : PartitionManager} {id : PartitionId} {event : PartitionEvent}
  {history : List PartitionEvent}

theorem event_cases (happened : Event manager event next) :
    (∃ partitionType vcpuCount epoch id,
      manager.create partitionType vcpuCount epoch = .ok (id, next) ∧
        event.handedOut = some id) ∨
      (∃ id, manager.remove id = .ok next ∧ event.handedOut = none) ∨
      (next = manager ∧ event.handedOut = none) := by
  obtain ⟨request, outcome⟩ := event
  cases request with
  | create partitionType vcpuCount epoch =>
    cases created : manager.create partitionType vcpuCount epoch with
    | ok result =>
      simp only [Event, call, created, Prod.mk.injEq] at happened
      obtain ⟨rfl, rfl⟩ := happened
      exact Or.inl ⟨partitionType, vcpuCount, epoch, result.1, created, rfl⟩
    | error e =>
      simp only [Event, call, created, Prod.mk.injEq] at happened
      obtain ⟨rfl, rfl⟩ := happened
      exact Or.inr (Or.inr ⟨rfl, rfl⟩)
  | remove id =>
    cases removed : manager.remove id with
    | ok after =>
      simp only [Event, call, removed, Prod.mk.injEq] at happened
      obtain ⟨rfl, rfl⟩ := happened
      exact Or.inr (Or.inl ⟨id, removed, rfl⟩)
    | error e =>
      simp only [Event, call, removed, Prod.mk.injEq] at happened
      obtain ⟨rfl, rfl⟩ := happened
      exact Or.inr (Or.inr ⟨rfl, rfl⟩)

theorem isSome_partitionIn (i : Nat) :
    (manager.partitionIn id i).isSome = true ↔
      ∃ partition, manager.partitions i = some partition ∧ partition.id = id := by
  simp only [isSome_iff_exists, partitionIn_eq_some]

theorem scan_eq_bind (manager : PartitionManager) (id : PartitionId) :
    manager.scan id = (manager.scanSlot id).bind manager.partitions := by
  rw [scan, scanSlot, List.find?_filterMap]
  congr 2
  funext i
  rw [partitionIn, isSome_filter]

theorem Unique.scanSlot_eq_some_iff (unique : manager.Unique) {i : Nat} :
    manager.scanSlot id = some i ↔ i < maxPartitions ∧
      ∃ partition, manager.partitions i = some partition ∧ partition.id = id := by
  rw [scanSlot, find_range_eq_some_iff, isSome_partitionIn]
  intro j k jBelow kBelow jHolds kHolds
  obtain ⟨left, leftHere, leftId⟩ := (isSome_partitionIn j).mp jHolds
  obtain ⟨right, rightHere, rightId⟩ := (isSome_partitionIn k).mp kHolds
  exact unique j k left right jBelow kBelow leftHere rightHere (leftId.trans rightId.symm)

/-- The index names slots of the table, so that where identifiers are unique it finds what
the scan finds. -/
theorem Unique.slotOf_eq (unique : manager.Unique)
    (indexed : ∀ i, id.asU32 < idIndexSize → manager.idToSlot id.asU32 = some i →
      i < maxPartitions) :
    manager.slotOf id = manager.scanSlot id := by
  rw [slotOf, ← scanSlot]
  split
  · rename_i small
    cases entry : (manager.idToSlot id.asU32).filter fun i => (manager.partitionIn id i).isSome with
    | none => rfl
    | some i =>
      obtain ⟨named, holds⟩ := filter_eq_some_iff.mp entry
      rw [unique.scanSlot_eq_some_iff.mpr
        ⟨indexed i small named, (isSome_partitionIn i).mp holds⟩]
      rfl
  · rfl

theorem issued_run (run : Run Event new history manager) :
    manager.nextId = asU32 ((issued history).length + 1) ∧
      issued history = (List.range (issued history).length).map fun k => ⟨asU32 (k + 1)⟩ := by
  induction run with
  | nil => exact ⟨rfl, rfl⟩
  | @snoc labels last middle final before happened ih =>
    obtain ⟨counter, listed⟩ := ih
    rcases event_cases happened with ⟨_, _, _, id, created, handed⟩ | ⟨id, removed, silent⟩ |
      ⟨rfl, silent⟩
    · have bumped : final.nextId = asU32 (middle.nextId + 1) := by
        unfold create at created
        split at created
        · cases created
        · split at created
          · cases created
            rfl
          · cases created
      obtain ⟨rfl, -⟩ := create_spec created
      rw [issued_snoc, handed, toList_some, length_append, length_singleton,
        range_succ, map_append, ← listed, bumped, counter]
      refine ⟨?_, rfl⟩
      unfold asU32
      omega
    · have kept : final.nextId = middle.nextId := by
        unfold remove at removed
        split at removed
        · cases removed
          rfl
        · cases removed
      rw [issued_snoc, silent, toList_none, append_nil, kept]
      exact ⟨counter, listed⟩
    · rw [issued_snoc, silent, toList_none, append_nil]
      exact ⟨counter, listed⟩

/-- The table after handing out `count` identifiers: those of the live partitions are
among the first values of the counter, and the index is that of the table. -/
structure Numbered (count : Nat) (manager : PartitionManager) : Prop where
  unique : manager.Unique
  numbered : ∀ i partition, i < maxPartitions → manager.partitions i = some partition →
    0 < partition.id.asU32 ∧ partition.id.asU32 ≤ count
  counted : manager.Counted
  indexed : ∀ id i, id.asU32 < idIndexSize → (manager.idToSlot id.asU32 = some i ↔
    i < maxPartitions ∧ ∃ partition, manager.partitions i = some partition ∧ partition.id = id)

theorem numbered_new : Numbered 0 new where
  unique _ _ _ _ _ _ held := by cases held
  numbered _ _ _ held := by cases held
  counted := counted_new
  indexed _ _ _ := by simp [new]

theorem idToSlot_place (small : id.asU32 < idIndexSize) (i : Nat) (partition : Partition) :
    (manager.place i partition).idToSlot id.asU32 =
      if id = partition.id then some (min i 255) else manager.idToSlot id.asU32 := by
  by_cases same : id = partition.id
  · subst same
    simp [place, small]
  · have apart : id.asU32 ≠ partition.id.asU32 := fun value => same (congrArg PartitionId.mk value)
    by_cases inIndex : partition.id.asU32 < idIndexSize <;> simp [place, inIndex, apart, same]

theorem idToSlot_vacate (small : id.asU32 < idIndexSize) (gone : PartitionId) (i : Nat) :
    (manager.vacate gone i).idToSlot id.asU32 =
      if id = gone then none else manager.idToSlot id.asU32 := by
  by_cases same : id = gone
  · subst same
    simp [vacate, small]
  · have apart : id.asU32 ≠ gone.asU32 := fun value => same (congrArg PartitionId.mk value)
    by_cases inIndex : gone.asU32 < idIndexSize <;> simp [vacate, inIndex, apart, same]

theorem Numbered.create {count : Nat} (numbered : Numbered count manager)
    (counter : manager.nextId = count + 1) {partitionType : PartitionType}
    {vcpuCount epoch : Nat}
    (created : manager.create partitionType vcpuCount epoch = .ok (id, next)) :
    Numbered (count + 1) next := by
  have counted := numbered.counted.create created
  obtain ⟨rfl, room, i, below, free, rfl⟩ := create_places created
  have fresh : ∀ j, j < maxPartitions → ∀ partition, manager.partitions j = some partition →
      partition.id ≠ ⟨manager.nextId⟩ := by
    intro j jBelow partition held same
    have bound := (numbered.numbered j partition jBelow held).2
    have value : partition.id.asU32 = manager.nextId := congrArg PartitionId.asU32 same
    omega
  refine ⟨?_, ?_, counted, ?_⟩
  · intro j k left right jBelow kBelow leftHere rightHere same
    rcases filled_cases leftHere with ⟨rfl, rfl⟩ | ⟨_, leftBefore⟩
    · rcases filled_cases rightHere with ⟨rfl, rfl⟩ | ⟨_, rightBefore⟩
      · rfl
      · exact absurd same.symm (fresh k kBelow right rightBefore)
    · rcases filled_cases rightHere with ⟨rfl, rfl⟩ | ⟨_, rightBefore⟩
      · exact absurd same (fresh j jBelow left leftBefore)
      · exact numbered.unique j k left right jBelow kBelow leftBefore rightBefore same
  · intro j partition jBelow held
    rcases filled_cases held with ⟨rfl, rfl⟩ | ⟨_, before⟩
    · show 0 < manager.nextId ∧ manager.nextId ≤ count + 1
      omega
    · have range := numbered.numbered j partition jBelow before
      omega
  · intro id j small
    have slot : min i 255 = i := by
      unfold maxPartitions at below
      omega
    rw [idToSlot_place small, slot, Partition.new]
    dsimp only
    by_cases same : id = ⟨manager.nextId⟩
    · rw [if_pos same]
      constructor
      · rintro ⟨⟩
        exact ⟨below, _, update_self _ _ _, same.symm⟩
      · rintro ⟨jBelow, partition, held, sameId⟩
        rcases filled_cases held with ⟨rfl, _⟩ | ⟨_, before⟩
        · rfl
        · exact absurd (sameId.trans same) (fresh j jBelow partition before)
    · rw [if_neg same, numbered.indexed id j small]
      refine and_congr_right fun jBelow => exists_congr fun partition =>
        and_congr_left fun sameId => ?_
      constructor
      · intro held
        have apart : j ≠ i := by
          rintro rfl
          cases free.symm.trans held
        exact (update_of_ne apart _ _).trans held
      · intro held
        rcases filled_cases held with ⟨_, rfl⟩ | ⟨_, before⟩
        · exact absurd sameId.symm same
        · exact before

theorem Numbered.remove {count : Nat} (numbered : Numbered count manager)
    (removed : manager.remove id = .ok next) : Numbered count next := by
  have counted := numbered.counted.remove removed
  obtain ⟨i, gone, below, here, rfl, rfl⟩ := remove_vacates removed
  refine ⟨?_, ?_, counted, ?_⟩
  · intro j k left right jBelow kBelow leftHere rightHere
    exact numbered.unique j k left right jBelow kBelow (emptied_cases leftHere).2
      (emptied_cases rightHere).2
  · exact fun j partition jBelow held =>
      numbered.numbered j partition jBelow (emptied_cases held).2
  · intro id j small
    rw [idToSlot_vacate small]
    by_cases same : id = gone.id
    · rw [if_pos same]
      refine iff_of_false (by simp) ?_
      rintro ⟨jBelow, partition, held, sameId⟩
      obtain ⟨apart, before⟩ := emptied_cases held
      exact apart (numbered.unique j i partition gone jBelow below before here (sameId.trans same))
    · rw [if_neg same, numbered.indexed id j small]
      refine and_congr_right fun _ => exists_congr fun partition => and_congr_left fun sameId => ?_
      constructor
      · intro held
        have apart : j ≠ i := by
          rintro rfl
          obtain rfl := some.inj (here.symm.trans held)
          exact same sameId.symm
        exact (update_of_ne apart _ _).trans held
      · exact fun held => (emptied_cases held).2

theorem numbered_run (run : Run Event new history manager)
    (few : (issued history).length ≤ u32Max) : Numbered (issued history).length manager := by
  induction run with
  | nil => exact numbered_new
  | @snoc labels last middle final before happened ih =>
    have counter := (issued_run before).1
    have total := congrArg List.length (issued_snoc labels last)
    rw [length_append] at total
    have earlier := ih (by omega)
    rcases event_cases happened with ⟨_, _, _, id, created, handed⟩ | ⟨id, removed, silent⟩ |
      ⟨rfl, silent⟩
    · rw [handed, toList_some, length_singleton] at total
      rw [total]
      refine earlier.create ?_ created
      rw [counter]
      exact Nat.mod_eq_of_lt (by unfold u32Max at few; omega)
    · rw [silent, toList_none, length_nil] at total
      rw [total]
      exact earlier.remove removed
    · rw [silent, toList_none, length_nil] at total
      rw [total]
      exact earlier

theorem count_issued {ids : List PartitionId} (few : ids.length ≤ u32Max)
    (listed : ids = (List.range ids.length).map fun k => ⟨asU32 (k + 1)⟩)
    (positive : 0 < id.asU32) (bound : id.asU32 ≤ ids.length) : ids.count id = 1 := by
  unfold u32Max at few
  have value : ∀ k, k < ids.length → asU32 (k + 1) = k + 1 := fun k below =>
    Nat.mod_eq_of_lt (by omega)
  apply count_eq_one_of_mem
  · rw [listed]
    refine nodup_range.map_on fun j jMember k kMember same => ?_
    have values := congrArg PartitionId.asU32 same
    simp only [value j (mem_range.mp jMember), value k (mem_range.mp kMember)] at values
    omega
  · rw [listed]
    refine mem_map.mpr ⟨id.asU32 - 1, mem_range.mpr (by omega), ?_⟩
    rw [value _ (by omega), Nat.sub_add_cancel positive]

theorem exact_run (run : Run Event new history manager) (few : (issued history).length ≤ u32Max) :
    Exact (issued history) manager := by
  have numbered := numbered_run run few
  have slots : ∀ id, manager.slotOf id = manager.scanSlot id := fun id =>
    numbered.unique.slotOf_eq fun i small named => ((numbered.indexed id i small).mp named).1
  constructor
  · exact numbered.unique
  · intro i partition below held isZero
    have positive := (numbered.numbered i partition below held).1
    rw [isZero] at positive
    exact absurd positive (Nat.lt_irrefl 0)
  · intro i partition below held
    obtain ⟨positive, bound⟩ := numbered.numbered i partition below held
    exact count_issued few (issued_run run).2 positive bound
  · exact numbered.counted
  · intro id
    rw [get, slots, scan_eq_bind]
  · intro id change
    rw [modify, slots]
    cases manager.scanSlot id <;> rfl
  · intro id
    rw [remove, ← scanSlot]
    cases manager.scanSlot id <;> rfl
  · intro id small
    apply Option.ext
    intro i
    rw [numbered.indexed id i small, numbered.unique.scanSlot_eq_some_iff]

theorem exists_issuing {history : List PartitionEvent} {count : Nat}
    (many : count < (issued history).length) : ∃ first event rest id,
      history = first ++ event :: rest ∧ (issued first).length = count ∧
        event.handedOut = some id := by
  induction history using List.reverseRecOn with
  | nil => cases many
  | append_singleton labels last ih =>
    by_cases earlier : count < (issued labels).length
    · obtain ⟨first, event, rest, id, rfl, length, handed⟩ := ih earlier
      exact ⟨first, event, rest ++ [last], id, by simp, length, handed⟩
    · rw [issued_snoc, length_append] at many
      cases handed : last.handedOut with
      | none =>
        rw [handed, toList_none, length_nil] at many
        omega
      | some id =>
        rw [handed, toList_some, length_singleton] at many
        exact ⟨labels, last, [], id, rfl, by omega, handed⟩

def counting (nextId : Nat) : PartitionManager := { new with nextId }

theorem vacate_place (nextId i : Nat) (partition : Partition) :
    ((counting nextId).place i partition).vacate partition.id i =
      counting (asU32 (nextId + 1)) := by
  rw [vacate, counting, PartitionManager.mk.injEq]
  refine ⟨?_, ?_, rfl, rfl⟩
  · exact (update_idem _ _ _).trans (update_eq_self i _)
  · by_cases inIndex : partition.id.asU32 < idIndexSize
    · simp only [place, inIndex, if_true, update_idem]
      exact update_eq_self _ _
    · simp only [place, inIndex, if_false]
      rfl

theorem cycle (nextId : Nat) : Run Event (counting nextId)
    [(.create .agent 1 0, .ok (.created ⟨nextId⟩)), (.remove ⟨nextId⟩, .ok .removed)]
    (counting (asU32 (nextId + 1))) := by
  have created : Run Event (counting nextId) [(.create .agent 1 0, .ok (.created ⟨nextId⟩))]
      ((counting nextId).place 0 (.new ⟨nextId⟩ .agent 1 0)) := .single rfl
  refine created.snoc ?_
  have found : ((List.range maxPartitions).find? fun i =>
      (((counting nextId).place 0 (.new ⟨nextId⟩ .agent 1 0)).partitionIn ⟨nextId⟩ i).isSome) =
      some 0 := by
    rw [List.find?_range_eq_some]
    refine ⟨?_, mem_range.mpr (by decide), fun j below => absurd below (Nat.not_lt_zero j)⟩
    simp [partitionIn, place, Partition.new]
  rw [Event, call, remove, found]
  exact congrArg _ (vacate_place nextId 0 (.new ⟨nextId⟩ .agent 1 0))

/-- The manager keeps its promise all along a run if and only if at most `u32::MAX` identifiers
were handed out. -/
theorem identifiersUnique (history : List PartitionEvent) (final : PartitionManager)
    (run : Run Event new history final) :
    (∀ first rest here, history = first ++ rest → Run Event new first here →
      Exact (issued first) here) ↔ (issued history).length ≤ u32Max := by
  constructor
  · intro promised
    by_contra many
    obtain ⟨first, event, rest, id, rfl, length, handed⟩ := exists_issuing (Nat.not_le.mp many)
    obtain ⟨here, next, before, happened, _⟩ := run.split_at
    have kept := promised (first ++ [event]) rest next (by simp) (before.snoc happened)
    rcases event_cases happened with ⟨_, _, _, other, created, _⟩ | ⟨_, _, silent⟩ | ⟨_, silent⟩
    · obtain ⟨rfl, _, i, below, _, rfl⟩ := create_places created
      apply kept.notHypervisor i _ below (Function.update_self _ _ _)
      show (⟨here.nextId⟩ : PartitionId) = .hypervisor
      rw [(issued_run before).1, length]
      rfl
    · cases silent.symm.trans handed
    · cases silent.symm.trans handed
  · rintro few first rest here rfl before
    refine exact_run before (le_trans ?_ few)
    rw [issued, issued, List.filterMap_append, List.length_append]
    exact Nat.le_add_right _ _

/-- The slot of a removed partition is taken by the next one; two identifiers were handed out. -/
theorem identifiersUnique_removed : ∃ final, Run Event new
    [(.create .agent 1 0, .ok (.created ⟨1⟩)), (.remove ⟨1⟩, .ok .removed),
      (.create .agent 1 0, .ok (.created ⟨2⟩))] final ∧ Exact [⟨1⟩, ⟨2⟩] final := by
  have created : Event (counting 2) (.create .agent 1 0, .ok (.created ⟨2⟩))
    ((counting 2).place 0 (.new ⟨2⟩ .agent 1 0)) := rfl
  have run : Run Event new _ _ := (cycle 1).snoc created
  exact ⟨_, run, (identifiersUnique _ _ run).mpr (by decide) _ [] _ rfl run⟩

/-- After `u32::MAX` creations, the hypervisor's identifier is handed out. -/
theorem hypervisorHandedOut : ∃ history final partition, Run Event new history final ∧
    final.partitions 0 = some partition ∧ partition.id = .hypervisor := by
  have cycles : ∀ count, ∃ history, Run Event new history (counting (asU32 (count + 1))) := by
    intro count
    induction count with
    | zero => exact ⟨[], .nil⟩
    | succ count ih =>
      obtain ⟨history, run⟩ := ih
      have counter : asU32 (asU32 (count + 1) + 1) = asU32 (count + 1 + 1) := by
        unfold asU32
        omega
      exact ⟨_, counter ▸ run.append (cycle _)⟩
  obtain ⟨history, run⟩ := cycles u32Max
  have wrapped : asU32 (u32Max + 1) = 0 := rfl
  rw [wrapped] at run
  have created : Event (counting 0) (.create .agent 1 0, .ok (.created ⟨0⟩))
    ((counting 0).place 0 (.new ⟨0⟩ .agent 1 0)) := rfl
  exact ⟨_, _, .new ⟨0⟩ .agent 1 0, run.snoc created, rfl, rfl⟩

end PartitionManager

end Rvm.Partition
