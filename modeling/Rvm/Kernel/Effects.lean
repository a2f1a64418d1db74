import Rvm.Cap.Tokens
import Rvm.Coherence.EngineSound
import Rvm.Kernel.Answers
import Rvm.Partition.DeviceLeases

/-!
Owns what one kernel call can do to the subsystems: the partition table, the scheduler, the
capability manager, the coherence engine, the channels and the devices. What holds over runs
across subsystems is derived from this inversion.
-/

namespace Rvm

open Cap Coherence Foundation Memory Partition Sched Security Witness

/-- The subsystems that others refer to. -/
structure Subsystems where
  partitions : PartitionManager
  scheduler : Scheduler
  capManager : CapabilityManager
  coherence : CoherenceEngine
  ipc : IpcManager
  devices : DeviceLeaseManager

def Kernel.subsystems (kernel : Kernel) : Subsystems where
  partitions := kernel.partitions
  scheduler := kernel.scheduler
  capManager := kernel.capManager
  coherence := kernel.coherence
  ipc := kernel.ipc
  devices := kernel.devices

def endedBy : KernelCall × KernelOutcome → Option PartitionId
  | (.destroyPartition id, .ok _) => some id
  | (.executeMerge _ absorbed, .ok _) => some absorbed
  | (.applyDecision (.mergeRecommended _ absorbed _), .ok _) => some absorbed
  | _ => none

def KernelCall.Ends (kernel : Kernel) : KernelCall → PartitionId → Prop
  | .destroyPartition target, id => target = id ∧ kernel.booted = true ∧
    ∃ partition, kernel.partitions.get target = some partition ∧
      validTransition partition.state .destroyed = true
  | .executeMerge absorber absorbed, id => absorbed = id ∧
    kernel.checkMerge absorber absorbed = .ok ()
  | .applyDecision (.mergeRecommended a b _), id => b = id ∧ kernel.checkMerge a b = .ok ()
  | _, _ => False

def KernelCall.Creates (kernel : Kernel) : KernelCall → Prop
  | .createPartition _ => True
  | .executeSplit source => (kernel.partitions.get source).isSome = true
  | .applyDecision (.splitRecommended source _) => (kernel.partitions.get source).isSome = true
  | .checkedCreatePartition _ token =>
    ∃ tier, (Kernel.writeRequest token .partitionCreate 0).check = .ok tier
  | _ => False

namespace Kernel

variable {N : Nat} {hasher : ChainHasher} {kernel next : Kernel}

def MovesMessages (before after : IpcManager) : Prop :=
  after = before ∨ ∃ label : IpcCall × IpcOutcome,
    (∀ source dest, label.1 ≠ .createChannel source dest) ∧
      IpcManager.Step defaultMaxIpcChannels defaultIpcQueueSize before label after

def Equips (before after : DeviceLeaseManager) : Prop :=
  after = before ∨ ∃ label : DeviceCall × DeviceOutcome,
    (∀ deviceId partition duration epoch hash,
      label.1 ≠ .grantLease deviceId partition duration epoch hash) ∧
      DeviceLeaseManager.Step defaultMaxDevices defaultMaxLeases before label after

inductive Effect (kernel : Kernel) : KernelCall × KernelOutcome → Kernel → Prop
  | idle {label : KernelCall × KernelOutcome} {next : Kernel} (spares : endedBy label = none)
      (same : next.subsystems = kernel.subsystems) : Effect kernel label next
  | ticked {label : KernelCall × KernelOutcome} {next : Kernel} {decision : CoherenceDecision}
      {coherence : CoherenceEngine} (spares : endedBy label = none)
      (ticked : kernel.coherence.tick 20 = some (decision, coherence))
      (sameCount : next.partitions.count = kernel.partitions.count)
      (sameIds : ∀ i, (next.partitions.partitions i).map Partition.id =
        (kernel.partitions.partitions i).map Partition.id)
      (same : next.subsystems =
        { kernel.subsystems with
          partitions := next.partitions
          scheduler := (kernel.scheduler.tickEpoch defaultMaxCpus).2
          coherence := coherence }) :
      Effect kernel label next
  | messaged {label : KernelCall × KernelOutcome} {next : Kernel} (spares : endedBy label = none)
      (recorded : next.coherence = kernel.coherence ∨ ∃ source target weight result,
        kernel.coherence.recordCommunication source target weight = some (result, next.coherence))
      (moves : MovesMessages kernel.ipc next.ipc)
      (same : next.subsystems =
        { kernel.subsystems with coherence := next.coherence, ipc := next.ipc }) :
      Effect kernel label next
  | registered {label : KernelCall × KernelOutcome} {next : Kernel} {id : PartitionId}
      {partitions : PartitionManager} {vcpuCount : Nat} (spares : endedBy label = none)
      (booted : kernel.booted = true) (creates : label.1.Creates kernel)
      (created : kernel.partitions.create .agent vcpuCount kernel.scheduler.currentEpoch =
        .ok (id, partitions))
      (same : next.subsystems =
        { kernel.subsystems with
          partitions := partitions
          coherence := (kernel.coherence.addPartition id).2 }) :
      Effect kernel label next
  | forgot {label : KernelCall × KernelOutcome} {next : Kernel} {id : PartitionId}
      {result : Except RvmError Unit} {coherence : CoherenceEngine}
      (only : ∀ gone, endedBy label = some gone → gone = id) (ends : label.1.Ends kernel id)
      (removed : kernel.coherence.removePartition id = some (result, coherence))
      (table : next.partitions = kernel.partitions ∨
        kernel.partitions.remove id = .ok next.partitions)
      (same : next.subsystems =
        { kernel.subsystems with partitions := next.partitions, coherence := coherence }) :
      Effect kernel label next
  | managed {call : Cap.Call} {outcome : Cap.Outcome} {next : Kernel}
      (step : CapabilityManager.Step defaultCapCapacity kernel.capManager (call, outcome)
        next.capManager)
      (same : next.subsystems = { kernel.subsystems with capManager := next.capManager }) :
      Effect kernel (.capManagerMut call, .ok (.capability outcome)) next
  | enqueued {cpu deadlineUrgency : Nat} {id : PartitionId} {outcome : KernelOutcome}
      {next : Kernel} (booted : kernel.booted = true)
      (known : (kernel.partitions.get id).isSome = true)
      (same : next.subsystems =
        { kernel.subsystems with
          scheduler := (kernel.scheduler.enqueue defaultMaxCpus cpu id deadlineUrgency
            (kernel.coherence.pressure id)).2 }) :
      Effect kernel (.enqueuePartition cpu id deadlineUrgency, outcome) next
  | switched {cpu : Nat} {outcome : KernelOutcome} {next : Kernel}
      (same : next.subsystems =
        { kernel.subsystems with scheduler := (kernel.scheduler.switchNext defaultMaxCpus cpu).2 }) :
      Effect kernel (.switchNext cpu, outcome) next
  | degraded {label : KernelCall × KernelOutcome} {next : Kernel} {degraded : Bool}
      (spares : endedBy label = none)
      (same : next.subsystems =
        { kernel.subsystems with scheduler := { kernel.scheduler with degraded := degraded } }) :
      Effect kernel label next
  | opened {source dest : PartitionId} {outcome : KernelOutcome} {next : Kernel}
      (booted : kernel.booted = true) (sourceKnown : (kernel.partitions.get source).isSome = true)
      (destKnown : (kernel.partitions.get dest).isSome = true)
      (same : next.subsystems =
        { kernel.subsystems with
          ipc := (kernel.ipc.createChannel defaultMaxIpcChannels source dest).2 }) :
      Effect kernel (.createChannel source dest, outcome) next
  | leased {deviceId durationEpochs capHash : Nat} {partition : PartitionId}
      {outcome : KernelOutcome} {next : Kernel} (booted : kernel.booted = true)
      (same : next.subsystems =
        { kernel.subsystems with
          devices := (kernel.devices.grantLease defaultMaxDevices defaultMaxLeases deviceId partition
            durationEpochs kernel.scheduler.currentEpoch capHash).2 }) :
      Effect kernel (.grantDeviceLease deviceId partition durationEpochs capHash, outcome) next
  | equipped {label : KernelCall × KernelOutcome} {next : Kernel} (spares : endedBy label = none)
      (equips : Equips kernel.devices next.devices)
      (same : next.subsystems = { kernel.subsystems with devices := next.devices }) :
      Effect kernel label next

theorem completePhases_subsystems (phases : List BootPhase) : ∀ kernel : Kernel,
    (completePhases N hasher kernel phases).2.subsystems = kernel.subsystems := by
  induction phases with
  | nil => exact fun _ => rfl
  | cons phase rest ih =>
    intro kernel
    rw [completePhases]
    split
    · rfl
    · exact ih _

theorem movesMessages_of_apply {before after : IpcManager} (call : IpcCall)
    (moves : ∀ source dest, call ≠ .createChannel source dest)
    (applied : (before.apply defaultMaxIpcChannels defaultIpcQueueSize call).2 = after) :
    MovesMessages before after :=
  .inr ⟨(call, (before.apply _ _ call).1), moves, Prod.ext rfl applied⟩

theorem endedBy_error (call : KernelCall) (e : RvmError) : endedBy (call, .error e) = none := by
  cases call with
  | applyDecision decision => cases decision <;> rfl
  | _ => rfl

theorem effect_of_step {label : KernelCall × KernelOutcome}
    (step : Step N hasher kernel label next) : Effect kernel label next := by
  obtain ⟨call, outcome⟩ := label
  cases answers_of_step step with
  | refused => exact .idle (endedBy_error _ _) rfl
  | rejected => exact .idle (endedBy_error _ _) rfl
  | booted => exact .idle rfl (completePhases_subsystems bootPhases kernel)
  | @ticked _ coherence _ walked =>
    obtain ⟨sameCount, sameIds⟩ := @syncPartitionScores_slots
      { kernel with
        scheduler := (kernel.scheduler.tickEpoch defaultMaxCpus).2
        coherence := coherence
        tierManager := kernel.tierManager.advanceEpoch.decayRecency recencyDecayPerEpoch }
    exact .ticked rfl walked sameCount sameIds rfl
  | recorded _ walked => exact .messaged rfl (.inr ⟨_, _, _, _, walked⟩) (.inl rfl) rfl
  | created reaches booted created =>
    cases reaches with
    | straight => exact .registered rfl booted trivial created rfl
    | creation _ allowed => exact .registered rfl booted ⟨_, allowed⟩ created rfl
  | split asks booted held created =>
    have known := Option.isSome_of_eq_some held
    cases asks with
    | asked | recommended => exact .registered rfl booted known created rfl
  | destroyed booted held valid forgot =>
    have ends : KernelCall.Ends kernel (.destroyPartition _) _ := ⟨rfl, booted, _, held, valid⟩
    unfold finishDestroy
    split
    · exact .forgot (fun _ ended => by cases ended) ends forgot (.inl rfl) rfl
    · exact .forgot (fun _ ended => (Option.some.inj ended).symm) ends forgot (.inr ‹_›) rfl
  | managed applied => exact .managed ⟨_, applied⟩ rfl
  | enqueued booted known enqueued =>
    obtain rfl := congrArg Prod.snd enqueued
    exact .enqueued booted known rfl
  | switched => exact .switched rfl
  | merged asks allowed forgot =>
    cases asks with
    | asked | recommended =>
      exact .forgot (fun _ ended => (Option.some.inj ended).symm) ⟨rfl, allowed⟩ forgot (.inl rfl) rfl
  | opened booted sourceKnown destKnown created =>
    obtain rfl := congrArg Prod.snd created
    exact .opened booted sourceKnown destKnown rfl
  | unopened booted sourceKnown destKnown failed =>
    obtain rfl := congrArg Prod.snd failed
    exact .opened booted sourceKnown destKnown rfl
  | @sent _ edgeId msg callerId _ ipc _ _ reaches _ accepted walked =>
    have moves : MovesMessages kernel.ipc ipc := movesMessages_of_apply (.send edgeId msg callerId)
      (fun _ _ same => by cases same) (congrArg Prod.snd accepted :)
    cases reaches with
    | straight | send => exact .messaged rfl (.inr ⟨_, _, _, _, walked⟩) moves rfl
  | @received edgeId _ _ _ received =>
    exact .messaged rfl (.inl rfl) (movesMessages_of_apply (.receive edgeId)
      (fun _ _ same => by cases same) (congrArg Prod.snd received :)) rfl
  | @closed edgeId _ _ closed =>
    exact .messaged rfl (.inl rfl) (movesMessages_of_apply (.destroyChannel edgeId)
      (fun _ _ same => by cases same) (congrArg Prod.snd closed :)) rfl
  | retiered retiers => cases retiers <;> exact .idle rfl rfl
  | ignored | promoted | demoted => exact .idle rfl rfl
  | @registered info id devices registered =>
    refine .equipped rfl (.inr ⟨(.registerDevice info, .ok (.device id)), ?_, ?_⟩) rfl
    · intro _ _ _ _ _ other
      cases other
    · rw [DeviceLeaseManager.Step, DeviceLeaseManager.apply, registered]
  | leased booted granted =>
    obtain rfl := congrArg Prod.snd granted
    exact .leased booted rfl
  | unleased booted failed =>
    obtain rfl := congrArg Prod.snd failed
    exact .leased booted rfl
  | @returned leaseId devices revoked =>
    refine .equipped rfl (.inr ⟨(.revokeLease leaseId, .ok .done), ?_, ?_⟩) rfl
    · intro _ _ _ _ _ other
      cases other
    · rw [DeviceLeaseManager.Step, DeviceLeaseManager.apply, revoked]
      rfl
  | degraded | restored => exact .degraded rfl rfl

end Kernel

end Rvm
