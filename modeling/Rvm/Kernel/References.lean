import Rvm.Kernel.Merge

/-!
Owns the references to partitions that were destroyed or absorbed, from the run queues, the
channels, the device leases and the coherence graph. Destruction and merge clear the graph only,
and leases last until they are revoked.
-/

namespace Rvm

open Cap Coherence Foundation Partition Sched Witness Function CoherenceEngine List

def ended (history : List (KernelCall × KernelOutcome)) : List PartitionId :=
  history.filterMap endedBy

/-- No subsystem refers to the partition. -/
structure Kernel.Unreferenced (kernel : Kernel) (id : PartitionId) : Prop where
  switched : ∀ cpu old new, (kernel.switchNext cpu).1 = some (old, new) → old ≠ some id ∧ new ≠ id
  channels : ∀ i channel, i < defaultMaxIpcChannels → kernel.ipc.queues i = some channel →
    channel.source ≠ id ∧ channel.dest ≠ id
  leases : ∀ i lease, i < defaultMaxLeases → kernel.devices.leases i = some lease →
    lease.partitionId ≠ id
  node : kernel.coherence.Absent id

/-- The partition is on no run queue and runs on no processor. -/
structure Sched.Scheduler.Unscheduled (maxCpus : Nat) (scheduler : Scheduler) (id : PartitionId) :
    Prop where
  queued : ∀ cpu, cpu < maxCpus → ∀ entry ∈ scheduler.entries cpu, entry.partitionId ≠ id
  running : ∀ cpu, cpu < maxCpus → (scheduler.perCpu cpu).current ≠ some id

structure Subsystems.Released (subsystems : Subsystems) (id : PartitionId) : Prop where
  unscheduled : subsystems.scheduler.Unscheduled defaultMaxCpus id
  channels : ∀ i channel, i < defaultMaxIpcChannels → subsystems.ipc.queues i = some channel →
    channel.source ≠ id ∧ channel.dest ≠ id
  leases : ∀ i lease, i < defaultMaxLeases → subsystems.devices.leases i = some lease →
    lease.partitionId ≠ id

/-- The call makes a subsystem refer to the partition: it passes the checks of
the code and there is room. -/
def KernelCall.Introduces (kernel : Kernel) (call : KernelCall) (id : PartitionId) : Prop :=
  match call with
  | .enqueuePartition cpu target _ =>
    target = id ∧ kernel.booted = true ∧ (kernel.partitions.get id).isSome = true ∧
      cpu < defaultMaxCpus ∧ kernel.scheduler.queueLens cpu < maxRunQueue
  | .createChannel source dest =>
    (source = id ∨ dest = id) ∧ kernel.booted = true ∧
      (kernel.partitions.get source).isSome = true ∧ (kernel.partitions.get dest).isSome = true ∧
      kernel.ipc.edgeCount < defaultMaxIpcChannels
  | .grantDeviceLease deviceId partition _ _ =>
    partition = id ∧ kernel.booted = true ∧
      kernel.devices.leaseCount < defaultMaxLeases ∧
      ∃ i device, kernel.devices.devices i = some device ∧ device.id = deviceId ∧
        device.available = true
  | call =>
    call.Creates kernel ∧ kernel.booted = true ∧ kernel.partitions.count < maxPartitions ∧
      (∃ node, node < engineMaxNodes ∧ (kernel.coherence.graph.nodes node).partition = none) ∧
      id = ⟨kernel.partitions.nextId⟩

/-- The call makes no subsystem refer to a partition that has ended, and ends
only partitions that are released. -/
def Tidy (history : List (KernelCall × KernelOutcome)) (kernel : Kernel)
    (label : KernelCall × KernelOutcome) : Prop :=
  (∀ id ∈ ended history, ¬ label.1.Introduces kernel id) ∧
    ∀ id, label.1.Ends kernel id → kernel.subsystems.Released id

namespace Kernel

variable {N : Nat} {hasher : ChainHasher} {kernel next : Kernel} {id : PartitionId}

/-! ### What each subsystem keeps -/

variable {i maxCpus cpu : Nat} {before : DeviceLeaseManager} {scheduler : Scheduler}

theorem MovesMessages.channels {before after : IpcManager} (moves : MovesMessages before after)
    {channel : ChannelMeta} (held : after.queues i = some channel) :
    ∃ earlier, before.queues i = some earlier ∧ channel.source = earlier.source ∧
      channel.dest = earlier.dest := by
  have rewritten : ∀ (j : Nat) (old new : ChannelMeta), before.queues j = some old →
      new.source = old.source → new.dest = old.dest →
      update before.queues j (some new) i = some channel →
      ∃ earlier, before.queues i = some earlier ∧ channel.source = earlier.source ∧
        channel.dest = earlier.dest := by
    intro j old new heldBefore source dest heldAfter
    rcases filled_cases heldAfter with ⟨rfl, rfl⟩ | ⟨_, earlier⟩
    · exact ⟨old, heldBefore, source, dest⟩
    · exact ⟨channel, earlier, rfl, rfl⟩
  rcases moves with rfl | ⟨label, opensNone, step⟩
  · exact ⟨channel, held, rfl, rfl⟩
  · cases IpcManager.effect_of_step step with
    | idle _ _ => exact ⟨channel, held, rfl, rfl⟩
    | bumped => exact absurd rfl (opensNone _ _)
    | opened _ _ => exact absurd rfl (opensNone _ _)
    | @closed j closing heldBefore =>
      rw [IpcManager.closeChannel_queues] at held
      exact ⟨channel, (emptied_cases held).2, rfl, rfl⟩
    | delivered heldBefore _ _ _ | taken heldBefore =>
      rw [IpcManager.setChannel_queues] at held
      refine rewritten _ _ _ heldBefore ?_ ?_ held
      · rfl
      · rfl

theorem createChannel_queues {before : IpcManager} {maxEdges : Nat} {source dest : PartitionId}
    {channel : ChannelMeta}
    (held : (before.createChannel maxEdges source dest).2.queues i = some channel) :
    before.queues i = some channel ∨
      (before.edgeCount < maxEdges ∧ channel.source = source ∧ channel.dest = dest) := by
  unfold IpcManager.createChannel at held
  split at held
  · exact .inl held
  · rename_i room
    split at held
    · rename_i j _
      rw [IpcManager.openChannel_queues] at held
      rcases filled_cases held with ⟨_, rfl⟩ | ⟨_, before⟩
      · exact .inr ⟨Nat.not_le.mp room, rfl, rfl⟩
      · exact .inl before
    · exact .inl held

theorem grantLease_leases {maxDevices maxLeases : Nat}
    (exclusive : DeviceLeaseManager.Exclusive maxDevices maxLeases before)
    {deviceId durationEpochs currentEpoch capHash : Nat} {partition : PartitionId}
    {lease : ActiveLease}
    (held : (before.grantLease maxDevices maxLeases deviceId partition durationEpochs currentEpoch
      capHash).2.leases i = some lease) :
    before.leases i = some lease ∨
      (lease.partitionId = partition ∧ before.leaseCount < maxLeases ∧
        ∃ j device, before.devices j = some device ∧ device.id = deviceId ∧
          device.available = true) := by
  rcases exclusive.grantLease_cases deviceId partition durationEpochs currentEpoch capHash with
    ⟨e, refused⟩ | ⟨j, device, k, granted, known, sameId, available, room, _, _, _, owner, stored⟩
  · rw [refused] at held
    exact .inl held
  · rw [stored] at held
    dsimp only at held
    rcases filled_cases held with ⟨_, rfl⟩ | ⟨_, before⟩
    · exact .inr ⟨owner, room, j, device, known, sameId, available⟩
    · exact .inl before

theorem registerDevice_leases {maxDevices deviceId : Nat} {after : DeviceLeaseManager}
    {info : DeviceInfo}
    (registered : before.registerDevice maxDevices info = .ok (deviceId, after)) :
    after.leases = before.leases := by
  unfold DeviceLeaseManager.registerDevice at registered
  split at registered
  · cases registered
  · split at registered
    · cases registered
      rfl
    · cases registered

theorem Equips.leases {after : DeviceLeaseManager}
    (exclusive : DeviceLeaseManager.Exclusive defaultMaxDevices defaultMaxLeases before)
    (equips : Equips before after) {lease : ActiveLease} (held : after.leases i = some lease) :
    before.leases i = some lease := by
  have dropped : ∀ (next : DeviceLeaseManager) (gone : Nat → Prop),
      DeviceLeaseManager.Dropped gone defaultMaxLeases before next →
      next.leases i = some lease → before.leases i = some lease := by
    intro next gone dropped held
    by_cases isGone : gone i
    · rw [dropped.emptied i isGone] at held
      cases held
    · rwa [← dropped.leases i isGone]
  rcases equips with rfl | ⟨⟨call, outcome⟩, grantsNone, step⟩
  · exact held
  · have after_eq : (before.apply defaultMaxDevices defaultMaxLeases call).2 = after := by
      rw [step]
    subst after_eq
    cases call with
    | registerDevice info =>
      dsimp only [DeviceLeaseManager.apply] at held
      split at held
      · rename_i deviceId next registered
        rwa [registerDevice_leases registered] at held
      · exact held
    | grantLease deviceId partition durationEpochs currentEpoch capHash =>
      exact absurd rfl (grantsNone _ _ _ _ _)
    | revokeLease leaseId =>
      rcases exclusive.revokeLease_cases leaseId with
        ⟨e, refused⟩ | ⟨j, _, revoked, _, _, returned, drops⟩
      · dsimp only [DeviceLeaseManager.apply] at held
        rwa [refused] at held
      · dsimp only [DeviceLeaseManager.apply] at held
        rw [returned] at held
        exact dropped revoked _ drops held
    | expireLeases currentEpoch =>
      have drops := exclusive.expireLeases currentEpoch
      dsimp only [DeviceLeaseManager.apply] at held
      exact dropped _ _ drops held
    | checkLease leaseId currentEpoch => exact held
    | getLeaseHolder deviceId => exact held
    | isDeviceAvailable deviceId => exact held

theorem enqueue_perCpu {urgency : Nat} {pressure : CutPressure} :
    (scheduler.enqueue maxCpus cpu id urgency pressure).2.perCpu = scheduler.perCpu := by
  unfold Scheduler.enqueue
  dsimp only
  split
  · rfl
  · rfl

theorem switchNext_some {after : Scheduler} {old : Option PartitionId} {new : PartitionId}
    (switched : scheduler.switchNext maxCpus cpu = (some (old, new), after)) :
    cpu < maxCpus ∧ old = (scheduler.perCpu cpu).current ∧
      after.perCpu = update scheduler.perCpu cpu ⟨some new, false⟩ := by
  unfold Scheduler.switchNext at switched
  split at switched
  · cases switched
  · rename_i ready
    split at switched
    · cases switched
    · cases switched
      exact ⟨Nat.not_le.mp (not_or.mp ready).1, rfl, rfl⟩

theorem unscheduled_enqueue {urgency : Nat} {target : PartitionId} {pressure : CutPressure}
    (heaped : scheduler.Heaped) (unscheduled : scheduler.Unscheduled maxCpus id)
    (apart : cpu < maxCpus → scheduler.queueLens cpu < maxRunQueue → target ≠ id) :
    (scheduler.enqueue maxCpus cpu target urgency pressure).2.Unscheduled maxCpus id := by
  refine ⟨fun other below entry member => ?_, fun other below => ?_⟩
  · rcases @Scheduler.enqueue_cases maxCpus scheduler cpu target urgency pressure heaped with
      refused | ⟨added, after, accepted, inside, room, addedEq, _, entries⟩
    · rw [refused] at member
      exact unscheduled.queued other below entry member
    · rw [accepted, entries] at member
      by_cases here : other = cpu
      · rw [here, update_self] at member
        rcases Multiset.mem_cons.mp member with rfl | queued
        · rw [addedEq]
          exact apart inside room
        · exact unscheduled.queued cpu inside entry queued
      · rw [update_of_ne here] at member
        exact unscheduled.queued other below entry member
  · rw [enqueue_perCpu]
    exact unscheduled.running other below

theorem unscheduled_switchNext (heaped : scheduler.Heaped)
    (unscheduled : scheduler.Unscheduled maxCpus id) :
    (scheduler.switchNext maxCpus cpu).2.Unscheduled maxCpus id ∧
      ∀ old new, (scheduler.switchNext maxCpus cpu).1 = some (old, new) →
        old ≠ some id ∧ new ≠ id := by
  rcases @Scheduler.switchNext_cases maxCpus scheduler cpu heaped with
    ⟨refused, _⟩ | ⟨entry, switched, inside, _, member, _, _, entries⟩
  · rw [refused]
    exact ⟨unscheduled, fun _ _ switched => by cases switched⟩
  · obtain ⟨_, _, perCpu⟩ := switchNext_some switched
    have apart := unscheduled.queued cpu inside entry member
    rw [switched]
    refine ⟨⟨fun other below queued stays => ?_, fun other below => ?_⟩, fun old new returned => ?_⟩
    · rw [entries] at stays
      by_cases here : other = cpu
      · rw [here, update_self] at stays
        exact unscheduled.queued cpu inside queued (Multiset.mem_of_mem_erase stays)
      · rw [update_of_ne here] at stays
        exact unscheduled.queued other below queued stays
    · rw [perCpu]
      by_cases here : other = cpu
      · rw [here, update_self]
        exact fun same => apart (Option.some.inj same)
      · rw [update_of_ne here]
        exact unscheduled.running other below
    · cases returned
      exact ⟨unscheduled.running cpu inside, apart⟩

theorem introduces_of_creates {call : KernelCall} (creates : call.Creates kernel)
    (booted : kernel.booted = true) (room : kernel.partitions.count < maxPartitions)
    (free : ∃ node, node < engineMaxNodes ∧ (kernel.coherence.graph.nodes node).partition = none) :
    call.Introduces kernel ⟨kernel.partitions.nextId⟩ := by
  cases call with
  | enqueuePartition cpu target urgency | createChannel source dest
  | grantDeviceLease deviceId partition durationEpochs capHash => exact creates.elim
  | _ => exact ⟨creates, booted, room, free, rfl⟩

theorem addPartition_full {engine : CoherenceEngine}
    (full : ¬ ∃ node, node < engineMaxNodes ∧ (engine.graph.nodes node).partition = none) :
    (engine.addPartition id).2 = engine := by
  unfold addPartition
  cases added : engine.graph.addNode engineMaxNodes id with
  | error e => cases e <;> rfl
  | ok result =>
    obtain ⟨_, below, free, _⟩ := CoherenceGraph.addNode_cases added
    exact absurd ⟨_, below, free⟩ full

/-! ### Steps -/

variable {label : KernelCall × KernelOutcome}

theorem Effect.released (effect : Effect kernel label next)
    (consistent : kernel.subsystems.Consistent) (released : kernel.subsystems.Released id)
    (introducesNot : ¬ label.1.Introduces kernel id) : next.subsystems.Released id := by
  cases effect with
  | idle _ same =>
    rw [same]
    exact released
  | ticked _ _ _ _ same | degraded _ same =>
    rw [same]
    exact { released with
      unscheduled := ⟨released.unscheduled.queued, released.unscheduled.running⟩ }
  | messaged _ _ moves same =>
    rw [same]
    refine { released with channels := fun i channel below held => ?_ }
    obtain ⟨earlier, heldBefore, source, dest⟩ := moves.channels held
    rw [source, dest]
    exact released.channels i earlier below heldBefore
  | registered _ _ _ _ same | forgot _ _ _ _ same | managed _ same =>
    rw [same]
    exact { released with }
  | enqueued booted known same =>
    rw [same]
    refine { released with
      unscheduled := unscheduled_enqueue consistent.heaped released.unscheduled ?_ }
    intro inside room target
    exact introducesNot ⟨target, booted, target ▸ known, inside, room⟩
  | switched same =>
    rw [same]
    exact { released with
      unscheduled := (unscheduled_switchNext consistent.heaped released.unscheduled).1 }
  | @opened source dest outcome next booted sourceKnown destKnown same =>
    rw [same]
    refine { released with channels := fun i channel below held => ?_ }
    rcases createChannel_queues held with heldBefore | ⟨room, ofSource, ofDest⟩
    · exact released.channels i channel below heldBefore
    · rw [ofSource, ofDest]
      exact ⟨fun here => introducesNot ⟨.inl here, booted, sourceKnown, destKnown, room⟩,
        fun here => introducesNot ⟨.inr here, booted, sourceKnown, destKnown, room⟩⟩
  | leased booted same =>
    rw [same]
    refine { released with leases := fun i lease below held => ?_ }
    rcases grantLease_leases consistent.exclusive held with
      heldBefore | ⟨owner, room, available⟩
    · exact released.leases i lease below heldBefore
    · rw [owner]
      exact fun here => introducesNot ⟨here, booted, room, available⟩
  | equipped _ equips same =>
    rw [same]
    refine { released with leases := fun i lease below held => ?_ }
    exact released.leases i lease below (equips.leases consistent.exclusive held)

theorem Effect.absent (effect : Effect kernel label next)
    (consistent : kernel.subsystems.Consistent) (absent : kernel.coherence.Absent id)
    (introducesNot : ¬ label.1.Introduces kernel id) : next.coherence.Absent id := by
  have unchanged : next.coherence = kernel.coherence → next.coherence.Absent id := by
    intro same
    rw [same]
    exact absent
  cases effect with
  | ticked _ ticked _ _ same =>
    obtain ⟨_, _, returned, _, sameNodes⟩ := CoherenceEngine.Sound.tick consistent.sound 20
    cases ticked.symm.trans returned
    rw [show next.coherence = _ from congrArg Subsystems.coherence same]
    exact absent_of_sameNodes absent sameNodes
  | messaged _ recorded _ _ =>
    rcases recorded with same | ⟨source, target, weight, result, recorded⟩
    · exact unchanged same
    · obtain ⟨_, _, returned, _, sameNodes⟩ :=
        CoherenceEngine.Sound.recordCommunication consistent.sound source target weight
      cases recorded.symm.trans returned
      exact absent_of_sameNodes absent sameNodes
  | @registered label next created partitions vcpuCount _ booted creates made same =>
    rw [show next.coherence = _ from congrArg Subsystems.coherence same]
    obtain ⟨numbered, room, _⟩ := PartitionManager.create_spec made
    by_cases free : ∃ node, node < engineMaxNodes ∧
        (kernel.coherence.graph.nodes node).partition = none
    · have introduces := introduces_of_creates creates booted room free
      refine (CoherenceEngine.Sound.addPartition consistent.sound created).2 id ?_ absent
      rintro rfl
      rw [numbered] at introducesNot
      exact introducesNot introduces
    · rw [addPartition_full free]
      exact absent
  | forgot _ _ removed _ same =>
    obtain ⟨_, _, returned, _, _, others⟩ :=
      CoherenceEngine.Sound.removePartition consistent.sound _
    cases removed.symm.trans returned
    rw [show next.coherence = _ from congrArg Subsystems.coherence same]
    exact others id absent
  | idle _ same | managed _ same | enqueued _ _ same | switched same | degraded _ same
  | opened _ _ _ same | leased _ same | equipped _ _ same =>
    exact unchanged (congrArg Subsystems.coherence same)

/-- A step that ends a partition passed the checks of a destruction or merge, and
leaves no node of it. -/
theorem Effect.ends (effect : Effect kernel label next) (consistent : kernel.subsystems.Consistent)
    (ended : endedBy label = some id) : label.1.Ends kernel id ∧ next.coherence.Absent id := by
  have never : endedBy label = none → label.1.Ends kernel id ∧ next.coherence.Absent id := by
    intro spares
    rw [spares] at ended
    cases ended
  cases effect with
  | @forgot label next gone result coherence only ends removed table same =>
    obtain rfl := only id ended
    obtain ⟨_, _, returned, _, absent, _⟩ :=
      CoherenceEngine.Sound.removePartition consistent.sound id
    cases removed.symm.trans returned
    rw [show next.coherence = _ from congrArg Subsystems.coherence same]
    exact ⟨ends, absent⟩
  | idle spares _ | ticked spares _ _ _ _ | messaged spares _ _ _ | registered spares _ _ _ _ =>
    exact never spares
  | managed _ _ | enqueued _ _ _ | switched _ => exact never rfl
  | degraded spares _ => exact never spares
  | opened _ _ _ _ => exact never rfl
  | leased _ _ => exact never rfl
  | equipped spares _ _ => exact never spares

theorem introducesNot_of_ends {call : KernelCall} (ends : call.Ends kernel id) :
    ¬ call.Introduces kernel id := by
  intro introduces
  cases call with
  | destroyPartition target => exact introduces.1
  | executeMerge absorber absorbed => exact introduces.1
  | applyDecision decision =>
    cases decision with
    | noAction => exact ends
    | splitRecommended source pressure => exact ends
    | mergeRecommended a b pressure => exact introduces.1
  | _ => exact ends

/-! ### Runs -/

structure Forgotten (history : List (KernelCall × KernelOutcome)) (kernel : Kernel) : Prop where
  consistent : kernel.subsystems.Consistent
  released : ∀ id ∈ ended history, kernel.subsystems.Released id
  absent : ∀ id ∈ ended history, kernel.coherence.Absent id

theorem Forgotten.step {history : List (KernelCall × KernelOutcome)}
    (forgotten : Forgotten history kernel) (tidy : Tidy history kernel label)
    (step : Step N hasher kernel label next) : Forgotten (history ++ [label]) next := by
  have effect := effect_of_step step
  have added : ∀ id ∈ ended (history ++ [label]), id ∈ ended history ∨ endedBy label = some id := by
    intro id member
    rw [ended, filterMap_append, mem_append] at member
    rcases member with earlier | last
    · exact .inl earlier
    · rw [mem_filterMap] at last
      obtain ⟨_, isLast, ends⟩ := last
      obtain rfl := mem_singleton.mp isLast
      exact .inr ends
  refine ⟨effect.consistent forgotten.consistent, fun id member => ?_, fun id member => ?_⟩
  · rcases added id member with earlier | now
    · exact effect.released forgotten.consistent (forgotten.released id earlier)
        (tidy.1 id earlier)
    · have ends := (effect.ends forgotten.consistent now).1
      exact effect.released forgotten.consistent (tidy.2 id ends) (introducesNot_of_ends ends)
  · rcases added id member with earlier | now
    · exact effect.absent forgotten.consistent (forgotten.absent id earlier) (tidy.1 id earlier)
    · exact (effect.ends forgotten.consistent now).2

/-- In every run whose steps are tidy, in every state reached, no subsystem
refers to a partition that was destroyed or absorbed. -/
theorem nothingRefersToEnded (N : Nat) (hasher : ChainHasher) (cap : CapManagerConfig)
    (history : List (KernelCall × KernelOutcome)) (kernel : Kernel)
    (run : Run (Step N hasher) (.new cap) history kernel)
    (tidy : ∀ first label rest here, history = first ++ label :: rest →
      Run (Step N hasher) (.new cap) first here → Tidy first here label) :
    ∀ id ∈ ended history, kernel.Unreferenced id := by
  have initial : Forgotten [] (new cap) :=
    ⟨consistent_new cap, fun _ member => absurd member not_mem_nil,
      fun _ member => absurd member not_mem_nil⟩
  have forgotten : Forgotten history kernel :=
    run.invariantWhen initial (fun _ _ _ _ forgotten tidy step => forgotten.step tidy step) tidy
  intro id member
  have released := forgotten.released id member
  exact
    { switched := fun cpu => (unscheduled_switchNext forgotten.consistent.heaped
        released.unscheduled).2
      channels := released.channels
      leases := released.leases
      node := forgotten.absent id member }

theorem step_functional (here : Kernel) (label : KernelCall × KernelOutcome) (left right : Kernel)
    (first : Step N hasher here label left) (second : Step N hasher here label right) :
    left = right := by
  obtain ⟨fuel, leftReturned⟩ := first
  obtain ⟨more, rightReturned⟩ := second
  obtain ⟨call, outcome⟩ := label
  cases call with
  | capManagerMut call =>
    obtain ⟨leftResult, leftManaged, leftSame⟩ := Option.map_eq_some_iff.mp leftReturned
    obtain ⟨rightResult, rightManaged, rightSame⟩ := Option.map_eq_some_iff.mp rightReturned
    obtain ⟨sameOutcome, sameManager⟩ :=
      @CapabilityManager.apply_unique defaultCapCapacity here.capManager leftResult.2
        rightResult.2 call leftResult.1 rightResult.1 ⟨fuel, leftManaged⟩ ⟨more, rightManaged⟩
    rw [← (Prod.mk.inj leftSame).2, ← (Prod.mk.inj rightSame).2, sameManager]
  | _ => exact (Prod.mk.inj (Option.some.inj (leftReturned.symm.trans rightReturned))).2

theorem released_of_new {subsystems : Subsystems} (scheduler : subsystems.scheduler = .new)
    (ipc : subsystems.ipc = .new) (devices : subsystems.devices = .new) (id : PartitionId) :
    subsystems.Released id := by
  refine ⟨⟨fun cpu _ entry member => ?_, fun cpu _ current => ?_⟩, fun i channel _ held => ?_,
    fun i lease _ held => ?_⟩
  · rw [scheduler] at member
    exact absurd member (Multiset.notMem_zero entry)
  · rw [scheduler] at current
    cases current
  · rw [ipc] at held
    cases held
  · rw [devices] at held
    cases held

def createdDestroyed : List (KernelCall × KernelOutcome) :=
  createOne ++ [(.destroyPartition ⟨1⟩, .ok .done)]

theorem nothingRefersToEnded_createdDestroyed :
    ∃ kernel, Run (Step 256 sampleHasher) (.new .new) createdDestroyed kernel ∧
      ∀ id ∈ ended createdDestroyed, kernel.Unreferenced id := by
  have created : Run (Step 256 sampleHasher) (.new .new) createOne _ :=
    .cons ⟨0, rfl⟩ <| .single ⟨0, rfl⟩
  have run : Run (Step 256 sampleHasher) (.new .new) createdDestroyed _ := created.snoc ⟨0, rfl⟩
  refine ⟨_, run, nothingRefersToEnded 256 sampleHasher .new createdDestroyed _ run ?_⟩
  intro first label rest here split before
  rcases first with _ | ⟨boot, _ | ⟨create, _ | ⟨destroy, first⟩⟩⟩
  · cases split
    exact ⟨fun _ member => absurd member not_mem_nil, fun _ ends => ends.elim⟩
  · cases split
    exact ⟨fun _ member => absurd member not_mem_nil, fun _ ends => ends.elim⟩
  · cases split
    obtain rfl := Run.deterministic step_functional created before
    exact ⟨fun _ member => absurd member not_mem_nil,
      fun id _ => released_of_new rfl rfl rfl id⟩
  · exact absurd split (by simp [createdDestroyed, createOne])

/-- Two partitions with a channel, a lease and an entry in a run queue; the first
is destroyed. -/
def destroyedInUse : List (KernelCall × KernelOutcome) :=
  [(.boot, .ok .done), (.createPartition ⟨1⟩, .ok (.partition ⟨1⟩)),
    (.createPartition ⟨1⟩, .ok (.partition ⟨2⟩)), (.createChannel ⟨1⟩ ⟨2⟩, .ok (.edge 1)),
    (.registerDevice ⟨0, .network, 0, 4096, none, true⟩, .ok (.device 0)),
    (.grantDeviceLease 0 ⟨1⟩ 10 0, .ok (.lease 1)), (.enqueuePartition 0 ⟨1⟩ 5, .ok .done),
    (.destroyPartition ⟨1⟩, .ok .done)]

/-- The destroyed partition is switched to, and keeps its channel and lease. -/
theorem nothingRefersToEnded_inUse :
    ∃ kernel, Run (Step 256 sampleHasher) (.new .new) destroyedInUse kernel ∧
      ⟨1⟩ ∈ ended destroyedInUse ∧
      (kernel.switchNext 0).1 = some (none, ⟨1⟩) ∧
      (∃ channel, kernel.ipc.queues 0 = some channel ∧ channel.source = ⟨1⟩) ∧
      ∃ lease, kernel.devices.leases 0 = some lease ∧ lease.partitionId = ⟨1⟩ := by
  have run : Run (Step 256 sampleHasher) (.new .new) destroyedInUse _ :=
    .cons ⟨0, rfl⟩ <| .cons ⟨0, rfl⟩ <| .cons ⟨0, rfl⟩ <| .cons ⟨0, rfl⟩ <| .cons ⟨0, rfl⟩ <|
      .cons ⟨0, rfl⟩ <| .cons ⟨0, rfl⟩ <| .single ⟨0, rfl⟩
  exact ⟨_, run, mem_singleton.mpr rfl, rfl, ⟨_, rfl, rfl⟩, _, rfl, rfl⟩

/-! ### Leases -/

section Leases

variable {middle : Kernel} {cap : CapManagerConfig} {lease : ActiveLease}
  {earlier history : List (KernelCall × KernelOutcome)}

def LeasesAnew (lease : ActiveLease) (label : KernelCall × KernelOutcome) : Prop :=
  ∃ partition durationEpochs capHash leaseId, label =
    (.grantDeviceLease lease.deviceId partition durationEpochs capHash, .ok (.lease leaseId))

theorem lease_of_step {label : KernelCall × KernelOutcome}
    (exclusive : kernel.devices.Exclusive defaultMaxDevices defaultMaxLeases)
    (step : Step N hasher kernel label next) (held : kernel.devices.leases i = some lease)
    (unrevoked : label ≠ (.revokeDeviceLease lease.leaseId, .ok .done)) :
    next.devices.leases i = some lease ∧ ¬ LeasesAnew lease label := by
  obtain ⟨call, outcome⟩ := label
  cases answers_of_step step with
  | @leased deviceId partition durationEpochs capHash leaseId devices _ granted =>
    rcases exclusive.grantLease_cases deviceId partition durationEpochs
        kernel.scheduler.currentEpoch capHash with
      ⟨e, refused⟩ | ⟨j, device, k, new, known, sameId, available, _, _, free, _, _, stored⟩
    · cases refused.symm.trans granted
    · cases stored.symm.trans granted
      have apart : i ≠ k := by
        rintro rfl
        rw [held] at free
        cases free
      refine ⟨(update_of_ne apart _ _).trans held, ?_⟩
      rintro ⟨_, _, _, _, same⟩
      cases same
      obtain ⟨l, marked, markedHeld, markedId, unavailable⟩ := exclusive.leased i lease held
      obtain rfl := exclusive.distinct j l device marked known markedHeld
        (sameId.trans markedId.symm)
      rw [Option.some.inj (known.symm.trans markedHeld), unavailable] at available
      cases available
  | @returned leaseId devices revoked =>
    rcases exclusive.revokeLease_cases leaseId with
      ⟨e, refused⟩ | ⟨j, gone, _, goneHeld, goneId, done, drops⟩
    · cases refused.symm.trans revoked
    · cases done.symm.trans revoked
      refine ⟨(drops.leases i ?_).trans held, nofun⟩
      rintro rfl
      obtain rfl := Option.some.inj (held.symm.trans goneHeld)
      exact unrevoked (by rw [goneId])
  | @unleased deviceId partition durationEpochs capHash e devices _ failed =>
    rcases exclusive.grantLease_cases deviceId partition durationEpochs
        kernel.scheduler.currentEpoch capHash with
      ⟨_, refused⟩ | ⟨_, _, _, _, _, _, _, _, _, _, _, _, stored⟩
    · cases refused.symm.trans failed
      exact ⟨held, nofun⟩
    · cases stored.symm.trans failed
  | registered registered =>
    exact ⟨by rw [registerDevice_leases registered]; exact held, nofun⟩
  | booted =>
    have same : (kernel.bootUp N hasher).2.devices = kernel.devices :=
      congrArg Subsystems.devices (completePhases_subsystems bootPhases kernel)
    exact ⟨by rw [same]; exact held, nofun⟩
  | created reaches | sent reaches => cases reaches <;> exact ⟨held, nofun⟩
  | split asks | merged asks | retiered asks => cases asks <;> exact ⟨held, nofun⟩
  | destroyed =>
    unfold finishDestroy
    split <;> exact ⟨held, nofun⟩
  | _ => exact ⟨held, nofun⟩

/-- A lease lasts until it is revoked: neither its duration nor its holder ends it, and its device
is leased to nobody else. -/
theorem leaseLasts (run : Run (Step N hasher) (.new cap) earlier middle)
    (later : Run (Step N hasher) middle history kernel)
    (held : middle.devices.leases i = some lease)
    (unrevoked : (.revokeDeviceLease lease.leaseId, .ok .done) ∉ history) :
    kernel.devices.leases i = some lease ∧ ∀ label ∈ history, ¬ LeasesAnew lease label := by
  induction later with
  | nil => exact ⟨held, fun _ member => absurd member not_mem_nil⟩
  | snoc before step ih =>
    obtain ⟨still, anew⟩ := ih fun member => unrevoked (mem_append_left _ member)
    obtain ⟨kept, not⟩ := lease_of_step (consistent_of_run (run.append before)).exclusive step
      still fun same => unrevoked (mem_append_right _ (mem_singleton.mpr same.symm))
    refine ⟨kept, fun label member => ?_⟩
    rcases mem_append.mp member with earlier | last
    · exact anew label earlier
    · rw [mem_singleton.mp last]
      exact not

def leasedPartition : List (KernelCall × KernelOutcome) :=
  createOne ++ [(.registerDevice ⟨0, .network, 0, 4096, none, true⟩, .ok (.device 0)),
    (.grantDeviceLease 0 ⟨1⟩ 0 0, .ok (.lease 1))]

theorem leaseLasts_destroyedHolder : ∃ kernel lease,
    Run (Step 256 sampleHasher) (.new .new)
      (leasedPartition ++ [(.destroyPartition ⟨1⟩, .ok .done)]) kernel ∧
    kernel.partitions.get lease.partitionId = none ∧ kernel.devices.leases 0 = some lease ∧
    lease.expiryEpoch ≤ kernel.scheduler.currentEpoch := by
  have leased : Run (Step 256 sampleHasher) (.new .new) leasedPartition _ :=
    .cons ⟨0, rfl⟩ <| .cons ⟨0, rfl⟩ <| .cons ⟨0, rfl⟩ <| .single ⟨0, rfl⟩
  have run := leased.snoc (⟨0, rfl⟩ : Step 256 sampleHasher _ (.destroyPartition ⟨1⟩, .ok .done) _)
  have later := Run.continues step_functional leased run
  exact ⟨_, _, run, by decide, (leaseLasts leased later rfl (by simp)).1, by decide⟩

end Leases

end Kernel

end Rvm
