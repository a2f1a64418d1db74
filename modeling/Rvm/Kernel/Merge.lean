import Rvm.Kernel.Audit
import Rvm.Kernel.Effects

/-!
Owns the joint invariant of the subsystems over runs of the kernel, and what a
coherence-driven merge does to the partition table. The capabilities of a merged partition
are a parameter, because no function of the kernel counts them.
-/

namespace Rvm

open Cap Coherence Foundation Partition Sched Witness

/-- What every reachable kernel satisfies. -/
structure Subsystems.Consistent (subsystems : Subsystems) : Prop where
  counted : subsystems.partitions.Counted
  heaped : subsystems.scheduler.Heaped
  named : CapabilityManager.Named defaultCapCapacity subsystems.capManager
  sound : subsystems.coherence.Sound
  exclusive : DeviceLeaseManager.Exclusive defaultMaxDevices defaultMaxLeases subsystems.devices

theorem Sched.Scheduler.Heaped.enqueue {scheduler : Scheduler} {maxCpus : Nat}
    (heaped : scheduler.Heaped) (cpu : Nat) (id : PartitionId) (urgency : Nat)
    (pressure : CutPressure) :
    (scheduler.enqueue maxCpus cpu id urgency pressure).2.Heaped := by
  rcases scheduler.enqueue_cases cpu id urgency pressure heaped with
    refused | ⟨_, next, accepted, _, _, _, nextHeaped, _⟩
  · rw [refused]
    exact heaped
  · rw [accepted]
    exact nextHeaped

theorem Sched.Scheduler.Heaped.switchNext {scheduler : Scheduler} {maxCpus : Nat}
    (heaped : scheduler.Heaped) (cpu : Nat) : (scheduler.switchNext maxCpus cpu).2.Heaped := by
  rcases scheduler.switchNext_cases cpu heaped with
    ⟨refused, _⟩ | ⟨_, dispatched, _, _, _, _, nextHeaped, _⟩
  · rw [refused]
    exact heaped
  · rw [dispatched]
    exact nextHeaped

namespace Kernel

variable {N : Nat} {hasher : ChainHasher} {kernel next : Kernel}

theorem consistent_new (cap : CapManagerConfig) : (new cap).subsystems.Consistent where
  counted := PartitionManager.counted_new
  heaped := Scheduler.orderly_new.heaped
  named := CapabilityManager.named_new defaultCapCapacity cap
  sound := CoherenceEngine.sound_new
  exclusive := DeviceLeaseManager.exclusive_new

theorem Effect.consistent {label : KernelCall × KernelOutcome} (effect : Effect kernel label next)
    (consistent : kernel.subsystems.Consistent) : next.subsystems.Consistent := by
  cases effect with
  | idle _ same =>
    rw [same]
    exact consistent
  | ticked _ ticked sameCount sameIds same =>
    rw [same]
    obtain ⟨_, _, returned, sound, _⟩ := CoherenceEngine.Sound.tick consistent.sound 20
    cases ticked.symm.trans returned
    exact { consistent with counted := consistent.counted.congr sameCount sameIds, sound := sound }
  | messaged _ recorded _ same =>
    rw [same]
    refine { consistent with sound := ?_ }
    rcases recorded with unchanged | ⟨source, target, weight, result, recorded⟩
    · rw [unchanged]
      exact consistent.sound
    · obtain ⟨_, _, returned, sound, _⟩ :=
        CoherenceEngine.Sound.recordCommunication consistent.sound source target weight
      cases recorded.symm.trans returned
      exact sound
  | registered _ _ _ created same =>
    rw [same]
    exact { consistent with
      counted := consistent.counted.create created
      sound := (CoherenceEngine.Sound.addPartition consistent.sound _).1 }
  | forgot _ _ removed table same =>
    rw [same]
    obtain ⟨_, _, returned, sound, _⟩ :=
      CoherenceEngine.Sound.removePartition consistent.sound _
    cases removed.symm.trans returned
    refine { consistent with counted := ?_, sound := sound }
    rcases table with unchanged | removed
    · rw [unchanged]
      exact consistent.counted
    · exact consistent.counted.remove removed
  | managed step same =>
    rw [same]
    exact { consistent with named := consistent.named.step step }
  | enqueued _ _ same =>
    rw [same]
    exact { consistent with heaped := consistent.heaped.enqueue _ _ _ _ }
  | switched same =>
    rw [same]
    exact { consistent with heaped := consistent.heaped.switchNext _ }
  | degraded _ same =>
    rw [same]
    exact { consistent with heaped := consistent.heaped }
  | opened _ _ _ same =>
    rw [same]
    exact { consistent with }
  | leased _ same =>
    rw [same]
    exact { consistent with
      exclusive := (consistent.exclusive.apply (by decide) (.grantLease _ _ _ _ _)).1 }
  | equipped _ equips same =>
    rw [same]
    refine { consistent with exclusive := ?_ }
    rcases equips with unchanged | ⟨label, _, step⟩
    · rw [unchanged]
      exact consistent.exclusive
    · have kept := (consistent.exclusive.apply (by decide) label.1).1
      rwa [show kernel.subsystems.devices = kernel.devices from rfl, step] at kept

theorem consistent_of_run {cap : CapManagerConfig} {history : List (KernelCall × KernelOutcome)}
    (run : Run (Step N hasher) (.new cap) history kernel) : kernel.subsystems.Consistent :=
  @Run.stateInvariant _ _ _ _ _ _ (fun here => here.subsystems.Consistent) (consistent_new cap)
    (fun _ _ _ consistent step => (effect_of_step step).consistent consistent) run

end Kernel

namespace Coherence.CoherenceGraph

def areAdjacent (maxNodes maxEdges : Nat) (graph : CoherenceGraph) (a b : PartitionId) : Bool :=
  (List.range maxEdges).any fun i =>
    let edge := graph.edges i
    let source := graph.partitionAt maxNodes edge.fromNode
    let target := graph.partitionAt maxNodes edge.toNode
    edge.active && (source == some a && target == some b || source == some b && target == some a)

end Coherence.CoherenceGraph

namespace Kernel

/-- The extended preconditions hold of the two partitions. -/
def MergePermitted (combinedCapCount : PartitionId → PartitionId → Nat) (maxCapsPerPartition : Nat)
    (kernel : Kernel) (absorber absorbed : PartitionId) : Prop :=
  mergePreconditionsFull (kernel.coherence.score absorber) (kernel.coherence.score absorbed)
    (kernel.coherence.graph.areAdjacent engineMaxNodes engineMaxEdges absorber absorbed)
    (combinedCapCount absorber absorbed) maxCapsPerPartition = .ok ()

structure Consumed (kernel : Kernel) (absorber absorbed : PartitionId) (next : Kernel) : Prop where
  distinct : absorber ≠ absorbed
  absorberWasLive : (kernel.partitions.get absorber).isSome
  absorbedWasLive : (kernel.partitions.get absorbed).isSome
  absorberLive : (next.partitions.get absorber).isSome
  absorbedGone : next.partitions.get absorbed = none
  count : next.partitions.count + 1 = kernel.partitions.count
  others : ∀ id, id ≠ absorber → id ≠ absorbed →
    next.partitions.get id = kernel.partitions.get id

/-- What is asked of a merge that succeeds. -/
def MergeContract (N : Nat) (hasher : ChainHasher)
    (combinedCapCount : PartitionId → PartitionId → Nat) (maxCapsPerPartition : Nat)
    (kernel : Kernel) (absorber absorbed : PartitionId) : Prop :=
  ∀ survivor next, kernel.executeMerge N hasher absorber absorbed = some (.ok survivor, next) →
    survivor = absorber ∧
      kernel.MergePermitted combinedCapCount maxCapsPerPartition absorber absorbed ∧
      kernel.Consumed absorber absorbed next

def MergeRefused (kernel : Kernel) (absorber absorbed : PartitionId) : Prop :=
  kernel.booted = false ∨ kernel.partitions.get absorber = none ∨
    kernel.partitions.get absorbed = none ∨
    (kernel.coherence.score absorber).meetsThreshold .defaultMergeThreshold = false ∨
    (kernel.coherence.score absorbed).meetsThreshold .defaultMergeThreshold = false

variable {kernel : Kernel} {absorber absorbed : PartitionId}

theorem checkMerge_eq_ok_iff :
    kernel.checkMerge absorber absorbed = .ok () ↔ ¬ kernel.MergeRefused absorber absorbed := by
  unfold checkMerge MergeRefused mergePreconditionsMet
  simp only [Option.isNone_iff_eq_none, Bool.and_eq_true]
  split
  · rename_i notBooted
    simp [notBooted]
  · rename_i booted
    split
    · rename_i absorberMissing
      simp [absorberMissing]
    · rename_i absorberLive
      split
      · rename_i absorbedMissing
        simp [absorbedMissing]
      · rename_i absorbedLive
        simp [booted, absorberLive, absorbedLive]

theorem executeMerge_refused (N : Nat) (hasher : ChainHasher)
    (refused : kernel.MergeRefused absorber absorbed) :
    ∃ e, kernel.executeMerge N hasher absorber absorbed = some (.error e, kernel) := by
  unfold executeMerge
  cases checked : kernel.checkMerge absorber absorbed with
  | error e => exact ⟨e, rfl⟩
  | ok done => exact absurd refused (checkMerge_eq_ok_iff.mp checked)

theorem executeMerge_accepted (N : Nat) (hasher : ChainHasher)
    (consistent : kernel.subsystems.Consistent)
    (accepted : ¬ kernel.MergeRefused absorber absorbed) :
    ∃ next, kernel.executeMerge N hasher absorber absorbed = some (.ok absorber, next) ∧
      next.partitions = kernel.partitions := by
  obtain ⟨result, coherence, removed, _⟩ :=
    CoherenceEngine.Sound.removePartition consistent.sound absorbed
  have removed : kernel.coherence.removePartition absorbed = some (result, coherence) := removed
  unfold executeMerge
  rw [checkMerge_eq_ok_iff.mpr accepted, removed]
  exact ⟨_, rfl, rfl⟩

theorem not_mergeContract (N : Nat) (hasher : ChainHasher)
    (consistent : kernel.subsystems.Consistent)
    (accepted : ¬ kernel.MergeRefused absorber absorbed)
    (combinedCapCount : PartitionId → PartitionId → Nat) (maxCapsPerPartition : Nat) :
    ¬ MergeContract N hasher combinedCapCount maxCapsPerPartition kernel absorber absorbed := by
  intro contract
  obtain ⟨next, merged, same⟩ :=
    executeMerge_accepted N hasher consistent accepted
  have consumed := (contract absorber next merged).2.2
  have stillLive := consumed.absorbedWasLive
  rw [← same, consumed.absorbedGone] at stillLive
  cases stillLive

/-- In every reachable kernel a merge meets its contract exactly when the kernel
refuses it. -/
theorem mergeConsumesOne (N : Nat) (hasher : ChainHasher) (cap : CapManagerConfig)
    (combinedCapCount : PartitionId → PartitionId → Nat) (maxCapsPerPartition : Nat)
    (history : List (KernelCall × KernelOutcome)) (kernel : Kernel)
    (run : Run (Step N hasher) (.new cap) history kernel) (absorber absorbed : PartitionId) :
    MergeContract N hasher combinedCapCount maxCapsPerPartition kernel absorber absorbed ↔
      kernel.MergeRefused absorber absorbed := by
  constructor
  · intro contract
    by_contra accepted
    exact not_mergeContract N hasher (consistent_of_run run) accepted _ _ contract
  · intro refused survivor next merged
    obtain ⟨e, failed⟩ := executeMerge_refused N hasher refused
    rw [failed] at merged
    cases merged

def createdPair : List (KernelCall × KernelOutcome) :=
  [(.boot, .ok .done), (.createPartition ⟨1⟩, .ok (.partition ⟨1⟩)),
    (.createPartition ⟨1⟩, .ok (.partition ⟨2⟩))]

theorem createdPair_run :
    ∃ kernel, Run (Step 256 sampleHasher) (.new .new) createdPair kernel ∧
      ¬ kernel.MergeRefused ⟨1⟩ ⟨2⟩ ∧ ¬ kernel.MergeRefused ⟨1⟩ ⟨1⟩ ∧
      kernel.coherence.graph.areAdjacent engineMaxNodes engineMaxEdges ⟨1⟩ ⟨2⟩ = false := by
  have run : Run (Step 256 sampleHasher) (.new .new) createdPair _ :=
    .cons ⟨0, rfl⟩ <| .cons ⟨0, rfl⟩ <| .single ⟨0, rfl⟩
  refine ⟨_, run, ?_, ?_, ?_⟩
  · exact checkMerge_eq_ok_iff.mp (by rfl)
  · exact checkMerge_eq_ok_iff.mp (by rfl)
  · decide

theorem mergeConsumesOne_createdPair :
    ∃ kernel, Run (Step 256 sampleHasher) (.new .new) createdPair kernel ∧
      (MergeContract 256 sampleHasher (fun _ _ => 0) 16 kernel ⟨1⟩ ⟨3⟩ ↔
        kernel.MergeRefused ⟨1⟩ ⟨3⟩) := by
  obtain ⟨kernel, run, _⟩ := createdPair_run
  exact ⟨kernel, run, mergeConsumesOne 256 sampleHasher .new _ 16 _ kernel run ⟨1⟩ ⟨3⟩⟩

/-- Two partitions that share no edge are merged and the absorbed one stays
live; a partition is merged with itself. -/
theorem mergeConsumesOne_fails :
    ∃ kernel, Run (Step 256 sampleHasher) (.new .new) createdPair kernel ∧
      kernel.coherence.graph.areAdjacent engineMaxNodes engineMaxEdges ⟨1⟩ ⟨2⟩ = false ∧
      (∃ next, kernel.executeMerge 256 sampleHasher ⟨1⟩ ⟨2⟩ = some (.ok ⟨1⟩, next) ∧
        next.partitions.get ⟨2⟩ = kernel.partitions.get ⟨2⟩ ∧
        next.partitions.count = kernel.partitions.count) ∧
      (∃ next, kernel.executeMerge 256 sampleHasher ⟨1⟩ ⟨1⟩ = some (.ok ⟨1⟩, next)) ∧
      ∀ combinedCapCount maxCapsPerPartition,
        ¬ MergeContract 256 sampleHasher combinedCapCount maxCapsPerPartition kernel ⟨1⟩ ⟨2⟩ ∧
        ¬ MergeContract 256 sampleHasher combinedCapCount maxCapsPerPartition kernel ⟨1⟩ ⟨1⟩ := by
  obtain ⟨kernel, run, accepted, withItself, notAdjacent⟩ := createdPair_run
  obtain ⟨next, merged, same⟩ := executeMerge_accepted 256 sampleHasher (consistent_of_run run)
    accepted
  obtain ⟨nextSelf, mergedSelf, _⟩ := executeMerge_accepted 256 sampleHasher (consistent_of_run run)
    withItself
  refine ⟨kernel, run, notAdjacent, ⟨next, merged, by rw [same], by rw [same]⟩,
    ⟨nextSelf, mergedSelf⟩, fun combinedCapCount maxCapsPerPartition => ⟨?_, ?_⟩⟩
  · exact not_mergeContract _ _ (consistent_of_run run) accepted combinedCapCount _
  · exact not_mergeContract _ _ (consistent_of_run run) withItself combinedCapCount _

end Kernel

end Rvm
