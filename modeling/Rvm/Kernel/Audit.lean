import Rvm.Kernel.Answers

/-!
Owns the comparison of the witness log with the partition table. A successful merge removes
its partition from the log but not from the table, and a gated creation is recorded twice,
once for object `0`; the failing runs stand at the end.
-/

namespace Rvm

open ActionKind

open Cap Coherence Foundation Memory Partition Sched Security Witness PartitionManager Function

/-- What a record says about the set of live partitions. -/
inductive LifeEvent where
  | added (id : Nat)
  | removed (id : Nat)
deriving DecidableEq, Repr

def lifeEvent (record : WitnessRecord) : Option LifeEvent :=
  if record.actionKind = partitionCreate.asU8 ∨
      record.actionKind = structuralSplit.asU8 then some (.added record.targetObjectId)
  else if record.actionKind = partitionDestroy.asU8 ∨
      record.actionKind = structuralMerge.asU8 then some (.removed record.targetObjectId)
  else none

def LifeEvent.apply (live : Finset Nat) : LifeEvent → Finset Nat
  | .added id => insert id live
  | .removed id => live.erase id

/-- The set that folding the records in order yields. -/
def audited (records : List WitnessRecord) : Finset Nat :=
  (records.filterMap lifeEvent).foldl LifeEvent.apply ∅

def liveIds (partitions : PartitionManager) : Finset Nat :=
  (partitions.activeIds.map PartitionId.asU32).toFinset

theorem audited_snoc (records : List WitnessRecord) (record : WitnessRecord) :
    audited (records ++ [record]) =
      ((lifeEvent record).elim (audited records) (LifeEvent.apply (audited records))) := by
  rw [audited, List.filterMap_append, List.foldl_append, audited]
  cases event : lifeEvent record with
  | none => simp [event]
  | some found => simp [event]

theorem mem_liveIds {partitions : PartitionManager} {id : Nat} :
    id ∈ liveIds partitions ↔ ∃ i partition, i < maxPartitions ∧
      partitions.partitions i = some partition ∧ partition.id.asU32 = id := by
  rw [liveIds, List.mem_toFinset, List.mem_map]
  constructor
  · rintro ⟨held, active, rfl⟩
    obtain ⟨i, partition, below, slot, rfl⟩ := mem_activeIds.mp active
    exact ⟨i, partition, below, slot, rfl⟩
  · rintro ⟨i, partition, below, slot, rfl⟩
    exact ⟨partition.id, mem_activeIds.mpr ⟨i, partition, below, slot, rfl⟩, rfl⟩

namespace Kernel

variable {N : Nat} {hasher : ChainHasher} {kernel next : Kernel}

/-- A creation that would succeed takes an identifier no live partition has. -/
def NextIdFree (kernel : Kernel) : Prop :=
  kernel.booted = true → kernel.partitions.count < maxPartitions →
    kernel.partitions.get ⟨kernel.partitions.nextId⟩ = none

/-- The call is no merge that passes its checks and no gated creation that
passes the gate, and it creates no partition under the identifier of a live
one. -/
def AuditSafe (kernel : Kernel) (label : KernelCall × KernelOutcome) : Prop :=
  match label.1 with
  | .createPartition _ => kernel.NextIdFree
  | .executeSplit source => (kernel.partitions.get source).isSome → kernel.NextIdFree
  | .applyDecision (.splitRecommended source _) =>
    (kernel.partitions.get source).isSome → kernel.NextIdFree
  | .executeMerge absorber absorbed => kernel.checkMerge absorber absorbed ≠ .ok ()
  | .applyDecision (.mergeRecommended a b _) => kernel.checkMerge a b ≠ .ok ()
  | .checkedCreatePartition _ token =>
    kernel.booted = true → ∀ tier, (writeRequest token .partitionCreate 0).check ≠ .ok tier
  | _ => True

/-- The log grew by records that say nothing about partitions. -/
inductive Unmentioned (N : Nat) (hasher : ChainHasher) (log : WitnessLog) : WitnessLog → Prop
  | same : Unmentioned N hasher log log
  | append {later : WitnessLog} {record : WitnessRecord} (before : Unmentioned N hasher log later)
      (silent : lifeEvent record = none) :
      Unmentioned N hasher log (later.append N hasher record).2

/-- The changes to partition table and log that an audited call can make. -/
inductive LifeChange (N : Nat) (hasher : ChainHasher) (kernel : Kernel) : Kernel → Prop
  | quiet {next : Kernel}
      (sameIds : ∀ i, (next.partitions.partitions i).map Partition.id =
        (kernel.partitions.partitions i).map Partition.id)
      (log : Unmentioned N hasher kernel.witnessLog next.witnessLog) :
      LifeChange N hasher kernel next
  | created {next : Kernel} {i : Nat} {partition : Partition} {record : WitnessRecord}
      (below : i < maxPartitions) (free : kernel.partitions.partitions i = none)
      (fresh : kernel.partitions.get partition.id = none)
      (placed : next.partitions.partitions =
        update kernel.partitions.partitions i (some partition))
      (mentions : lifeEvent record = some (.added partition.id.asU32))
      (log : next.witnessLog = (kernel.witnessLog.append N hasher record).2) :
      LifeChange N hasher kernel next
  | destroyed {next : Kernel} {i : Nat} {partition : Partition} {record : WitnessRecord}
      (below : i < maxPartitions) (held : kernel.partitions.partitions i = some partition)
      (emptied : next.partitions.partitions =
        update kernel.partitions.partitions i none)
      (mentions : lifeEvent record = some (.removed partition.id.asU32))
      (log : next.witnessLog = (kernel.witnessLog.append N hasher record).2) :
      LifeChange N hasher kernel next

theorem LifeChange.silent (samePartitions : next.partitions = kernel.partitions)
    (log : Unmentioned N hasher kernel.witnessLog next.witnessLog) :
    LifeChange N hasher kernel next :=
  .quiet (fun _ => by rw [samePartitions]) log

theorem LifeChange.same (samePartitions : next.partitions = kernel.partitions)
    (sameLog : next.witnessLog = kernel.witnessLog) : LifeChange N hasher kernel next :=
  .silent samePartitions (by rw [sameLog]; exact .same)

variable {record : WitnessRecord}

theorem LifeChange.emits (samePartitions : next.partitions = kernel.partitions)
    (silent : lifeEvent record = none)
    (log : next.witnessLog = (kernel.witnessLog.append N hasher record).2) :
    LifeChange N hasher kernel next :=
  .silent samePartitions (by rw [log]; exact .append .same silent)

/-! #### Call by call -/

theorem Unmentioned.trans {first middle last : WitnessLog}
    (left : Unmentioned N hasher first middle) (right : Unmentioned N hasher middle last) :
    Unmentioned N hasher first last := by
  induction right with
  | same => exact left
  | append _ silent ih => exact .append ih silent

theorem completePhases_silent (phases : List BootPhase) : ∀ kernel : Kernel,
    (completePhases N hasher kernel phases).2.partitions = kernel.partitions ∧
      Unmentioned N hasher kernel.witnessLog
        (completePhases N hasher kernel phases).2.witnessLog := by
  induction phases with
  | nil => exact fun _ => ⟨rfl, .same⟩
  | cons phase rest ih =>
    intro kernel
    rw [completePhases]
    cases kernel.boot.completePhase phase with
    | error e => exact ⟨rfl, .same⟩
    | ok tracker =>
      obtain ⟨samePartitions, log⟩ := ih
        ({ kernel with boot := tracker }.emit N hasher (bootWitness phase))
      have silent : lifeEvent (bootWitness phase) = none := by
        cases phase <;> rfl
      exact ⟨samePartitions, Unmentioned.trans (.append .same silent) log⟩

theorem register_change {partitionType : PartitionType} {vcpuCount epoch : Nat} {id : PartitionId}
    {partitions : PartitionManager} (booted : kernel.booted = true) (idFree : kernel.NextIdFree)
    (created : kernel.partitions.create partitionType vcpuCount epoch = .ok (id, partitions))
    (mentions : lifeEvent record = some (.added id.asU32)) :
    LifeChange N hasher kernel (kernel.register N hasher partitions id record) := by
  obtain ⟨idEq, room, i, below, free, placed⟩ := create_spec created
  refine .created below free ?_ placed mentions rfl
  have missing := idFree booted room
  rw [← idEq] at missing
  exact missing

theorem lifeChange_of_step {label : KernelCall × KernelOutcome} (step : Step N hasher kernel label next)
    (safe : kernel.AuditSafe label) : LifeChange N hasher kernel next := by
  obtain ⟨call, outcome⟩ := label
  cases answers_of_step step with
  | refused reaches =>
    cases reaches with
    | straight => exact .same rfl rfl
    | creation booted allowed => exact absurd allowed (safe booted _)
    | send => exact .emits rfl rfl rfl
  | rejected => exact .emits rfl rfl rfl
  | booted =>
    obtain ⟨samePartitions, log⟩ := @completePhases_silent N hasher bootPhases kernel
    exact .silent samePartitions log
  | ticked => exact .quiet (fun i => syncPartitionScores_slots.2 i) (.append .same rfl)
  | created reaches booted created =>
    cases reaches with
    | straight => exact register_change booted safe created rfl
    | creation _ allowed => exact absurd allowed (safe booted _)
  | split asks booted held created =>
    have sourceLive := Option.isSome_of_eq_some held
    cases asks with
    | asked | recommended => exact register_change booted (safe sourceLive) created rfl
  | destroyed =>
    unfold finishDestroy
    split
    · exact .same rfl rfl
    · rename_i removed
      obtain ⟨i, partition, below, held, rfl, emptied⟩ := remove_spec removed
      exact .destroyed below held emptied rfl rfl
  | merged asks allowed =>
    cases asks with
    | asked => exact absurd allowed safe
    | recommended => exact absurd allowed safe
  | sent reaches =>
    cases reaches with
    | straight => exact .emits rfl rfl rfl
    | send => exact .silent rfl (.append (.append .same rfl) rfl)
  | recorded | managed | enqueued | switched | ignored | unopened | received | retiered | registered
  | unleased => exact .same rfl rfl
  | opened | closed | promoted | demoted | leased | returned | degraded | restored =>
    exact .emits rfl rfl rfl

/-- No identifier is held twice, and the log, while it has not wrapped, yields
the live partitions. -/
structure Faithful (N : Nat) (kernel : Kernel) : Prop where
  distinct : ∀ i j left right, i < maxPartitions → j < maxPartitions →
    kernel.partitions.partitions i = some left → kernel.partitions.partitions j = some right →
    left.id = right.id → i = j
  inStep : kernel.witnessLog.InStep N
  agrees : kernel.witnessLog.written ≤ N →
    audited kernel.witnessLog.emitted = liveIds kernel.partitions

theorem faithful_new (cap : CapManagerConfig) : Faithful N (.new cap) where
  distinct := fun _ _ _ _ _ _ held => by cases held
  inStep := (Nat.zero_mod N).symm
  agrees := by
    intro _
    ext id
    rw [mem_liveIds]
    constructor
    · intro inside
      cases inside
    · rintro ⟨i, partition, -, held, -⟩
      cases held

theorem Unmentioned.audited_eq {log later : WitnessLog} (unmentioned : Unmentioned N hasher log later)
    (inStep : log.InStep N) :
    later.InStep N ∧ (later.written ≤ N →
      log.written ≤ N ∧ audited later.emitted = audited log.emitted) := by
  induction unmentioned with
  | same => exact ⟨inStep, fun retained => ⟨retained, rfl⟩⟩
  | @append later record before silent ih =>
    obtain ⟨laterInStep, laterAgrees⟩ := ih
    refine ⟨laterInStep.append record, fun retained => ?_⟩
    have room : later.written < N := retained
    obtain ⟨logRetained, sameSet⟩ := laterAgrees (Nat.le_of_lt room)
    refine ⟨logRetained, ?_⟩
    have stampSilent : lifeEvent (later.stamp hasher record) = none := silent
    rw [WitnessLog.emitted_append laterInStep room, audited_snoc, stampSilent, Option.elim_none,
      sameSet]

theorem audited_append {log : WitnessLog} {event : LifeEvent} (inStep : log.InStep N)
    (mentions : lifeEvent record = some event)
    (retained : (log.append N hasher record).2.written ≤ N) :
    audited (log.append N hasher record).2.emitted = event.apply (audited log.emitted) := by
  have stampMentions : lifeEvent (log.stamp hasher record) = some event := mentions
  rw [WitnessLog.emitted_append inStep retained, audited_snoc, stampMentions, Option.elim_some]

theorem liveIds_place {before after : PartitionManager} {i : Nat} {partition : Partition}
    (below : i < maxPartitions) (free : before.partitions i = none)
    (placed : after.partitions = update before.partitions i (some partition)) :
    liveIds after = insert partition.id.asU32 (liveIds before) := by
  ext id
  rw [Finset.mem_insert, mem_liveIds, mem_liveIds, placed]
  constructor
  · rintro ⟨j, held, belowJ, slot, rfl⟩
    rcases filled_cases slot with ⟨_, rfl⟩ | ⟨_, earlier⟩
    · exact Or.inl rfl
    · exact Or.inr ⟨j, held, belowJ, earlier, rfl⟩
  · rintro (rfl | ⟨j, held, belowJ, slot, rfl⟩)
    · exact ⟨i, partition, below, update_self _ _ _, rfl⟩
    · have isOther : j ≠ i := by
        rintro rfl
        rw [free] at slot
        cases slot
      exact ⟨j, held, belowJ, (update_of_ne isOther _ _).trans slot, rfl⟩

theorem liveIds_vacate {before after : PartitionManager} {i : Nat} {partition : Partition}
    (held : before.partitions i = some partition)
    (only : ∀ j other, j < maxPartitions → before.partitions j = some other →
      other.id = partition.id → j = i)
    (emptied : after.partitions = update before.partitions i none) :
    liveIds after = (liveIds before).erase partition.id.asU32 := by
  ext id
  rw [Finset.mem_erase, mem_liveIds, mem_liveIds, emptied]
  constructor
  · rintro ⟨j, other, belowJ, slot, rfl⟩
    obtain ⟨isOther, earlier⟩ := emptied_cases slot
    refine ⟨fun sameId => isOther ?_, j, other, belowJ, earlier, rfl⟩
    exact only j other belowJ earlier (congrArg PartitionId.mk sameId)
  · rintro ⟨different, j, other, belowJ, slot, rfl⟩
    have isOther : j ≠ i := by
      rintro rfl
      rw [held] at slot
      cases slot
      exact different rfl
    exact ⟨j, other, belowJ, (update_of_ne isOther _ _).trans slot, rfl⟩

theorem Faithful.change (faithful : Faithful N kernel) (change : LifeChange N hasher kernel next) :
    Faithful N next := by
  cases change with
  | quiet sameIds log =>
    obtain ⟨inStep, agrees⟩ := log.audited_eq faithful.inStep
    have slotOf : ∀ i partition, next.partitions.partitions i = some partition →
        ∃ earlier, kernel.partitions.partitions i = some earlier ∧ earlier.id = partition.id := by
      intro i partition held
      have mapped := (sameIds i).symm
      rw [held, Option.map_some] at mapped
      exact Option.map_eq_some_iff.mp mapped
    have sameActive : next.partitions.activeIds = kernel.partitions.activeIds := by
      rw [activeIds, activeIds]
      congr 1
      funext i
      exact sameIds i
    refine ⟨?_, inStep, fun retained => ?_⟩
    · intro i j left right iBelow jBelow leftHeld rightHeld same
      obtain ⟨leftEarlier, leftSlot, leftId⟩ := slotOf i left leftHeld
      obtain ⟨rightEarlier, rightSlot, rightId⟩ := slotOf j right rightHeld
      exact faithful.distinct i j leftEarlier rightEarlier iBelow jBelow leftSlot rightSlot
        (leftId.trans (same.trans rightId.symm))
    · obtain ⟨retainedBefore, sameSet⟩ := agrees retained
      rw [sameSet, faithful.agrees retainedBefore, liveIds, liveIds, sameActive]
  | @created i partition record below free fresh placed mentions log =>
    have notHeld : ∀ j other, j < maxPartitions → kernel.partitions.partitions j = some other →
        other.id ≠ partition.id := fun j other belowJ held =>
      not_held_of_get_eq_none fresh belowJ held
    refine ⟨?_, ?_, fun retained => ?_⟩
    · intro j k left right jBelow kBelow leftHeld rightHeld same
      rw [placed] at leftHeld rightHeld
      rcases filled_cases leftHeld with ⟨jIsSlot, rfl⟩ | ⟨_, leftBefore⟩
      · rcases filled_cases rightHeld with ⟨kIsSlot, _⟩ | ⟨_, rightBefore⟩
        · exact jIsSlot.trans kIsSlot.symm
        · exact absurd same.symm (notHeld k right kBelow rightBefore)
      · rcases filled_cases rightHeld with ⟨_, rfl⟩ | ⟨_, rightBefore⟩
        · exact absurd same (notHeld j left jBelow leftBefore)
        · exact faithful.distinct j k left right jBelow kBelow leftBefore rightBefore same
    · rw [log]
      exact faithful.inStep.append record
    · rw [log] at retained ⊢
      rw [audited_append faithful.inStep mentions retained,
        faithful.agrees (Nat.le_of_succ_le retained), liveIds_place below free placed]
      rfl
  | @destroyed i partition record below held emptied mentions log =>
    refine ⟨?_, ?_, fun retained => ?_⟩
    · intro j k left right jBelow kBelow leftHeld rightHeld same
      have survivor : ∀ l other, next.partitions.partitions l = some other →
          kernel.partitions.partitions l = some other := by
        intro l other otherHeld
        rw [emptied] at otherHeld
        exact (emptied_cases otherHeld).2
      exact faithful.distinct j k left right jBelow kBelow (survivor j left leftHeld)
        (survivor k right rightHeld) same
    · rw [log]
      exact faithful.inStep.append record
    · have only : ∀ j other, j < maxPartitions → kernel.partitions.partitions j = some other →
          other.id = partition.id → j = i := fun j other belowJ otherHeld sameId =>
        faithful.distinct j i other partition belowJ below otherHeld held sameId
      rw [log] at retained ⊢
      rw [audited_append faithful.inStep mentions retained,
        faithful.agrees (Nat.le_of_succ_le retained), liveIds_vacate held only emptied]
      rfl

/-- In every run whose calls meet the condition, and whose log has not wrapped,
folding the log yields exactly the live partitions. -/
theorem audit_fidelity (N : Nat) (hasher : ChainHasher) (cap : CapManagerConfig)
    (history : List (KernelCall × KernelOutcome)) (kernel : Kernel)
    (run : Run (Guarded (Step N hasher) AuditSafe) (.new cap) history kernel)
    (retained : kernel.witnessLog.written ≤ N) :
    audited kernel.witnessLog.emitted = liveIds kernel.partitions := by
  have faithful : Faithful N kernel :=
    run.stateInvariant (faithful_new cap) fun _ _ _ faithful guarded =>
      faithful.change (lifeChange_of_step guarded.1 guarded.2)
  exact faithful.agrees retained

/-- A stand-in for the hash functions; no operation reads the hashes. -/
def sampleHasher : ChainHasher := ⟨fun _ sequence => sequence, foldU64ToU32⟩

def createOne : List (KernelCall × KernelOutcome) :=
  [(.boot, .ok .done), (.createPartition ⟨1⟩, .ok (.partition ⟨1⟩))]

def splitDestroyed : List (KernelCall × KernelOutcome) :=
  createOne ++ [(.executeSplit ⟨1⟩, .ok (.partition ⟨2⟩)), (.destroyPartition ⟨1⟩, .ok .done)]

theorem audit_fidelity_splitDestroyed :
    ∃ kernel, Run (Step 256 sampleHasher) (.new .new) splitDestroyed kernel ∧
      audited kernel.witnessLog.emitted = liveIds kernel.partitions := by
  have run : Run (Guarded (Step 256 sampleHasher) AuditSafe) (.new .new) splitDestroyed _ :=
    .cons ⟨⟨0, rfl⟩, trivial⟩ <| .cons ⟨⟨0, rfl⟩, fun _ _ => rfl⟩ <|
      .cons ⟨⟨0, rfl⟩, fun _ _ _ => rfl⟩ <| .single ⟨⟨0, rfl⟩, trivial⟩
  exact ⟨_, run.mono fun _ _ _ guarded => guarded.1,
    audit_fidelity 256 sampleHasher .new splitDestroyed _ run (by decide)⟩

def sampleToken : CapToken := ⟨1, .partition, .write, 0⟩

def gatedCreation : List (KernelCall × KernelOutcome) :=
  [(.boot, .ok .done), (.checkedCreatePartition ⟨1⟩ sampleToken, .ok (.partition ⟨1⟩))]

def mergedPair : List (KernelCall × KernelOutcome) :=
  [(.boot, .ok .done), (.createPartition ⟨1⟩, .ok (.partition ⟨1⟩)),
    (.createPartition ⟨1⟩, .ok (.partition ⟨2⟩)), (.executeMerge ⟨1⟩ ⟨2⟩, .ok (.partition ⟨1⟩))]

/-- After a gated creation the log also yields partition `0`; after a merge it no longer yields
the absorbed partition, which is still live. -/
theorem audit_unfaithful :
    (∃ kernel, Run (Step 256 sampleHasher) (.new .new) gatedCreation kernel ∧
      kernel.witnessLog.written ≤ 256 ∧
      audited kernel.witnessLog.emitted = {0, 1} ∧ liveIds kernel.partitions = {1}) ∧
    ∃ kernel, Run (Step 256 sampleHasher) (.new .new) mergedPair kernel ∧
      kernel.witnessLog.written ≤ 256 ∧
      audited kernel.witnessLog.emitted = {1} ∧ liveIds kernel.partitions = {1, 2} := by
  have booted : Run (Step 256 sampleHasher) (.new .new) [(.boot, .ok .done)] _ :=
    Run.single ⟨0, rfl⟩
  constructor
  · have run : Run (Step 256 sampleHasher) (.new .new) gatedCreation _ := booted.snoc ⟨0, rfl⟩
    exact ⟨_, run, by decide, by decide, by decide⟩
  · have first : Run (Step 256 sampleHasher) (.new .new) (mergedPair.take 2) _ :=
      booted.snoc ⟨0, rfl⟩
    have second : Run (Step 256 sampleHasher) (.new .new) (mergedPair.take 3) _ :=
      first.snoc ⟨0, rfl⟩
    have run : Run (Step 256 sampleHasher) (.new .new) mergedPair _ := second.snoc ⟨0, rfl⟩
    exact ⟨_, run, by decide, by decide, by decide⟩

end Kernel

end Rvm
