import Rvm.Kernel.Kernel
import Rvm.Partition.IpcFifo

/-!
Owns the answers of the kernel: for each call the ways in which it ends, with what
each presupposes and the whole kernel it leaves. What holds over runs of the kernel
is derived from this inversion.
-/

namespace Rvm

open Cap Coherence Foundation Memory Partition Sched Security Witness Option

def KernelCall.presents : KernelCall → Option CapToken
  | .checkedCreatePartition _ token => some token
  | .checkedIpcSend _ _ token => some token
  | _ => none

namespace Kernel

section Inversion

variable (N : Nat) (hasher : ChainHasher) (kernel : Kernel)

/-- The operation that a call reaches, and the log it finds there: a checked call
reaches it when the gate has admitted it, and with the record of that. -/
inductive Reaches : KernelCall → KernelCall → WitnessLog → Prop
  | straight {call} (ungated : call.presents = none ∨ kernel.booted = false) :
      Reaches call call kernel.witnessLog
  | creation {config token tier} (booted : kernel.booted = true)
      (allowed : (writeRequest token .partitionCreate 0).check = .ok tier) :
      Reaches (.checkedCreatePartition config token) (.createPartition config)
        (kernel.emit N hasher ((writeRequest token .partitionCreate 0).allowed tier)).witnessLog
  | send {edgeId msg token tier} (booted : kernel.booted = true)
      (allowed : (writeRequest token .ipcSend msg.receiver.asU32).check = .ok tier) :
      Reaches (.checkedIpcSend edgeId msg token) (.ipcSend edgeId msg msg.sender)
        (kernel.emit N hasher ((writeRequest token .ipcSend msg.receiver.asU32).allowed tier)).witnessLog

/-- The two calls that split a partition, with their replies. -/
inductive AsksSplit (source child : PartitionId) : KernelCall → KernelReply → Prop
  | asked : AsksSplit source child (.executeSplit source) (.partition child)
  | recommended {pressure} : AsksSplit source child
      (.applyDecision (.splitRecommended source pressure)) (.applied (.split source child))

inductive AsksMerge (absorber absorbed : PartitionId) : KernelCall → KernelReply → Prop
  | asked : AsksMerge absorber absorbed (.executeMerge absorber absorbed) (.partition absorber)
  | recommended {coherence} : AsksMerge absorber absorbed
      (.applyDecision (.mergeRecommended absorber absorbed coherence))
      (.applied (.merged absorber absorbed))

/-- The calls that only set the tiers, with what they set them to. -/
inductive Retiers : KernelCall → TierManager → Prop
  | registered {regionId initialTier tiers}
      (done : kernel.tierManager.register defaultMaxTierRegions regionId initialTier = .ok tiers) :
      Retiers (.registerRegion regionId initialTier) tiers
  | accessed {regionId tiers}
      (done : kernel.tierManager.recordAccess defaultMaxTierRegions regionId = .ok tiers) :
      Retiers (.recordMemoryAccess regionId) tiers
  | updated {regionId cutValue tiers}
      (done : kernel.tierManager.updateCutValue defaultMaxTierRegions regionId cutValue = .ok tiers) :
      Retiers (.updateRegionCutValue regionId cutValue) tiers

inductive Answers : KernelCall → KernelOutcome → Kernel → Prop
  | refused {call inner log e} (reaches : Reaches N hasher kernel call inner log) :
      Answers call (.error e) { kernel with witnessLog := log }
  | rejected {call token action target reason} (presents : call.presents = some token)
      (denied : (writeRequest token action target).check = .error reason) :
      Answers call (.error .insufficientCapability)
        (kernel.emit N hasher (writeRequest token action target).rejection)
  | booted : Answers .boot (.ok .done) (kernel.bootUp N hasher).2
  | ticked {decision coherence} (booted : kernel.booted = true)
      (walked : kernel.coherence.tick 20 = some (decision, coherence)) :
      Answers .tick (.ok (.epoch (kernel.scheduler.tickEpoch defaultMaxCpus).1 decision))
        ((kernel.advanceEpoch coherence).emit N hasher (witnessRecord .schedulerEpoch 0 0
          (littleEndian (kernel.scheduler.tickEpoch defaultMaxCpus).1.switchCount)))
  | recorded {source target weight result coherence} (booted : kernel.booted = true)
      (walked : kernel.coherence.recordCommunication source target weight = some (result, coherence)) :
      Answers (.recordCommunication source target weight)
        ((result.mapError fun _ => .internalError).map fun _ => .done)
        { kernel with coherence := coherence }
  | created {call config log id partitions}
      (reaches : Reaches N hasher kernel call (.createPartition config) log)
      (booted : kernel.booted = true)
      (created : kernel.partitions.create .agent config.vcpuCount kernel.scheduler.currentEpoch =
        .ok (id, partitions)) :
      Answers call (.ok (.partition id)) (register N hasher { kernel with witnessLog := log } partitions
        id (witnessRecord .partitionCreate PartitionId.hypervisor.asU32 id.asU32 noPayload))
  | split {call reply source child partition partitions} (asks : AsksSplit source child call reply)
      (booted : kernel.booted = true) (held : kernel.partitions.get source = some partition)
      (created : kernel.partitions.create .agent partition.vcpuCount
        kernel.scheduler.currentEpoch = .ok (child, partitions)) :
      Answers call (.ok reply) (kernel.register N hasher partitions child
        (witnessRecord .structuralSplit source.asU32 child.asU32 noPayload))
  | destroyed {id partition result coherence} (booted : kernel.booted = true)
      (held : kernel.partitions.get id = some partition)
      (valid : validTransition partition.state .destroyed = true)
      (forgot : kernel.coherence.removePartition id = some (result, coherence)) :
      Answers (.destroyPartition id) ((kernel.finishDestroy N hasher id coherence).1.map fun _ => .done)
        (kernel.finishDestroy N hasher id coherence).2
  | managed {fuel call outcome capManager}
      (applied : kernel.capManager.apply defaultCapCapacity fuel call = some (outcome, capManager)) :
      Answers (.capManagerMut call) (.ok (.capability outcome)) { kernel with capManager := capManager }
  | enqueued {cpu id deadlineUrgency scheduler} (booted : kernel.booted = true)
      (known : (kernel.partitions.get id).isSome = true)
      (enqueued : kernel.scheduler.enqueue defaultMaxCpus cpu id deadlineUrgency
        (kernel.coherence.pressure id) = (true, scheduler)) :
      Answers (.enqueuePartition cpu id deadlineUrgency) (.ok .done)
        { kernel with scheduler := scheduler }
  | switched {cpu} : Answers (.switchNext cpu) (.ok (.switched (kernel.switchNext cpu).1))
      (kernel.switchNext cpu).2
  | merged {call reply absorber absorbed result coherence}
      (asks : AsksMerge absorber absorbed call reply)
      (allowed : kernel.checkMerge absorber absorbed = .ok ())
      (forgot : kernel.coherence.removePartition absorbed = some (result, coherence)) :
      Answers call (.ok reply) (emit N hasher { kernel with coherence := coherence }
        (witnessRecord .structuralMerge absorber.asU32 absorbed.asU32 noPayload))
  | ignored : Answers (.applyDecision .noAction) (.ok (.applied .noAction)) kernel
  | opened {source dest edgeId ipc} (booted : kernel.booted = true)
      (sourceKnown : (kernel.partitions.get source).isSome = true)
      (destKnown : (kernel.partitions.get dest).isSome = true)
      (created : kernel.ipc.createChannel defaultMaxIpcChannels source dest = (.ok edgeId, ipc)) :
      Answers (.createChannel source dest) (.ok (.edge edgeId)) (emit N hasher { kernel with ipc := ipc }
        (witnessRecord .commEdgeCreate source.asU32 dest.asU32 noPayload))
  | unopened {source dest e ipc} (booted : kernel.booted = true)
      (sourceKnown : (kernel.partitions.get source).isSome = true)
      (destKnown : (kernel.partitions.get dest).isSome = true)
      (failed : kernel.ipc.createChannel defaultMaxIpcChannels source dest = (.error e, ipc)) :
      Answers (.createChannel source dest) (.error e) { kernel with ipc := ipc }
  | sent {call edgeId msg callerId log ipc result coherence}
      (reaches : Reaches N hasher kernel call (.ipcSend edgeId msg callerId) log)
      (booted : kernel.booted = true)
      (accepted : kernel.ipc.send defaultMaxIpcChannels defaultIpcQueueSize edgeId msg callerId =
        (.ok (), ipc))
      (walked : kernel.coherence.recordCommunication msg.sender msg.receiver 1 =
        some (result, coherence)) :
      Answers call (.ok .done)
        (emit N hasher { kernel with witnessLog := log, ipc := ipc, coherence := coherence }
          (witnessRecord .ipcSend msg.sender.asU32 msg.receiver.asU32 noPayload))
  | received {edgeId msg ipc} (booted : kernel.booted = true)
      (received : kernel.ipc.receive defaultMaxIpcChannels defaultIpcQueueSize edgeId = (.ok msg, ipc)) :
      Answers (.ipcReceive edgeId) (.ok (.message msg)) { kernel with ipc := ipc }
  | closed {edgeId ipc} (booted : kernel.booted = true)
      (closed : kernel.ipc.destroyChannel defaultMaxIpcChannels edgeId = (.ok (), ipc)) :
      Answers (.destroyChannel edgeId) (.ok .done) (emit N hasher { kernel with ipc := ipc }
        (witnessRecord .commEdgeDestroy 0 0 (littleEndian edgeId)))
  | retiered {call tiers} (retiers : Retiers kernel call tiers) :
      Answers call (.ok .done) { kernel with tierManager := tiers }
  | promoted {regionId target oldTier tiers}
      (done : kernel.tierManager.promote defaultMaxTierRegions regionId target = .ok (oldTier, tiers)) :
      Answers (.promoteRegion regionId target) (.ok (.tier oldTier))
        (emit N hasher { kernel with tierManager := tiers } (witnessRecord .regionPromote 0 regionId
          (littleEndian (oldTier.index + 256 * target.index))))
  | demoted {regionId target oldTier tiers}
      (done : kernel.tierManager.demote defaultMaxTierRegions regionId target = .ok (oldTier, tiers)) :
      Answers (.demoteRegion regionId target) (.ok (.tier oldTier))
        (emit N hasher { kernel with tierManager := tiers } (witnessRecord .regionDemote 0 regionId
          (littleEndian (oldTier.index + 256 * target.index))))
  | registered {info id devices}
      (registered : kernel.devices.registerDevice defaultMaxDevices info = .ok (id, devices)) :
      Answers (.registerDevice info) (.ok (.device id)) { kernel with devices := devices }
  | leased {deviceId partition durationEpochs capHash leaseId devices} (booted : kernel.booted = true)
      (granted : kernel.devices.grantLease defaultMaxDevices defaultMaxLeases deviceId partition
        durationEpochs kernel.scheduler.currentEpoch capHash = (.ok leaseId, devices)) :
      Answers (.grantDeviceLease deviceId partition durationEpochs capHash) (.ok (.lease leaseId))
        (emit N hasher { kernel with devices := devices }
          (witnessRecord .deviceLeaseGrant partition.asU32 deviceId noPayload))
  | unleased {deviceId partition durationEpochs capHash e devices} (booted : kernel.booted = true)
      (failed : kernel.devices.grantLease defaultMaxDevices defaultMaxLeases deviceId partition
        durationEpochs kernel.scheduler.currentEpoch capHash = (.error e, devices)) :
      Answers (.grantDeviceLease deviceId partition durationEpochs capHash) (.error e)
        { kernel with devices := devices }
  | returned {leaseId devices}
      (revoked : kernel.devices.revokeLease defaultMaxDevices defaultMaxLeases leaseId = .ok devices) :
      Answers (.revokeDeviceLease leaseId) (.ok .done) (emit N hasher { kernel with devices := devices }
        (witnessRecord .deviceLeaseRevoke 0 0 (littleEndian leaseId)))
  | degraded : Answers .enterDegradedMode (.ok .done) (kernel.enterDegradedMode N hasher)
  | restored : Answers .exitDegradedMode (.ok .done) (kernel.exitDegradedMode N hasher)

end Inversion

variable {N : Nat} {hasher : ChainHasher} {kernel next : Kernel} {call : KernelCall}
  {inner : Except RvmError Unit} {edgeId : Nat}

theorem Answers.unchanged {e : RvmError} (ungated : call.presents = none) :
    Answers N hasher kernel call (.error e) kernel :=
  .refused (.straight (.inl ungated))

/-! ### Call by call -/

theorem gated_cases (request : GateRequest) :
    (∃ e, request.check = .error e ∧ kernel.gated N hasher request =
        (.error e, kernel.emit N hasher request.rejection)) ∨
      ∃ response tier, request.check = .ok tier ∧
        kernel.gated N hasher request = (.ok response, kernel.emit N hasher (request.allowed tier)) := by
  unfold gated checkAndExecute
  cases checked : request.check with
  | error e => exact Or.inl ⟨e, rfl, rfl⟩
  | ok tier => exact Or.inr ⟨_, tier, rfl, rfl⟩

theorem bootUp_answers (booted : kernel.bootUp N hasher = (inner, next)) :
    Answers N hasher kernel .boot (inner.map fun _ => .done) next := by
  cases inner with
  | ok done =>
    obtain rfl : _ = next := congrArg Prod.snd booted
    exact .booted
  | error e =>
    unfold bootUp bootPhases completePhases at booted
    split at booted
    · cases booted
      exact .unchanged rfl
    · rename_i tracker completed
      unfold BootTracker.completePhase at completed
      split at completed
      · split at completed
        · cases completed
          cases booted
        · cases completed
      · cases completed

theorem createPartition_answers {config : PartitionConfig} {log : WitnessLog}
    (reaches : Reaches N hasher kernel call (.createPartition config) log) :
    Answers N hasher kernel call
      ((createPartition N hasher { kernel with witnessLog := log } config).1.map .partition)
      (createPartition N hasher { kernel with witnessLog := log } config).2 := by
  unfold createPartition
  split
  · exact .refused reaches
  · rename_i booted
    split
    · exact .refused reaches
    · exact .created reaches (Bool.eq_true_of_not_eq_false booted) ‹_›

theorem executeSplit_answers {source : PartitionId} {reply : PartitionId → KernelReply}
    (ungated : call.presents = none) (asks : ∀ child, AsksSplit source child call (reply child)) :
    Answers N hasher kernel call ((kernel.executeSplit N hasher source).1.map reply)
      (kernel.executeSplit N hasher source).2 := by
  unfold executeSplit
  split
  · exact .unchanged ungated
  · rename_i booted
    split
    · exact .unchanged ungated
    · split
      · exact .unchanged ungated
      · exact .split (asks _) (Bool.eq_true_of_not_eq_false booted) ‹_› ‹_›

theorem destroyPartition_answers {id : PartitionId}
    (destroyed : kernel.destroyPartition N hasher id = some (inner, next)) :
    Answers N hasher kernel (.destroyPartition id) (inner.map fun _ => .done) next := by
  unfold destroyPartition at destroyed
  split at destroyed
  · cases destroyed
    exact .unchanged rfl
  · rename_i booted
    split at destroyed
    · cases destroyed
      exact .unchanged rfl
    · split at destroyed
      · cases destroyed
        exact .unchanged rfl
      · rename_i valid
        obtain ⟨⟨result, coherence⟩, forgot, finished⟩ := map_eq_some_iff.mp destroyed
        obtain rfl : _ = inner := congrArg Prod.fst finished
        obtain rfl : _ = next := congrArg Prod.snd finished
        exact .destroyed (Bool.eq_true_of_not_eq_false booted) ‹_›
          (Bool.eq_true_of_not_eq_false valid) forgot

theorem executeMerge_answers {absorber absorbed : PartitionId} {inner : Except RvmError PartitionId}
    {reply : PartitionId → KernelReply} (ungated : call.presents = none)
    (asks : AsksMerge absorber absorbed call (reply absorber))
    (merged : kernel.executeMerge N hasher absorber absorbed = some (inner, next)) :
    Answers N hasher kernel call (inner.map reply) next := by
  unfold executeMerge at merged
  split at merged
  · cases merged
    exact .unchanged ungated
  · obtain ⟨⟨result, coherence⟩, forgot, finished⟩ := map_eq_some_iff.mp merged
    cases finished
    exact .merged asks ‹_› forgot

theorem enqueuePartition_answers {cpu deadlineUrgency : Nat} {id : PartitionId} :
    Answers N hasher kernel (.enqueuePartition cpu id deadlineUrgency)
      ((kernel.enqueuePartition cpu id deadlineUrgency).1.map fun _ => .done)
      (kernel.enqueuePartition cpu id deadlineUrgency).2 := by
  unfold enqueuePartition
  split
  · exact .unchanged rfl
  · rename_i booted
    split
    · exact .unchanged rfl
    · rename_i known
      have isSome := ne_none_iff_isSome.mp fun absent => known (isNone_iff_eq_none.mpr absent)
      dsimp only
      split
      · exact .enqueued (Bool.eq_true_of_not_eq_false booted) isSome (Prod.ext ‹_› rfl)
      · rename_i turnedAway
        unfold Scheduler.enqueue at turnedAway ⊢
        dsimp only at turnedAway ⊢
        split at turnedAway
        · rw [if_pos ‹_›]
          exact .unchanged rfl
        · exact absurd rfl turnedAway

theorem createChannel_answers {source dest : PartitionId} :
    Answers N hasher kernel (.createChannel source dest)
      ((kernel.createChannel N hasher source dest).1.map .edge)
      (kernel.createChannel N hasher source dest).2 := by
  unfold createChannel
  split
  · exact .unchanged rfl
  · rename_i booted
    split
    · exact .unchanged rfl
    · rename_i known
      have sourceKnown := ne_none_iff_isSome.mp fun absent =>
        known (.inl (isNone_iff_eq_none.mpr absent))
      have destKnown := ne_none_iff_isSome.mp fun absent =>
        known (.inr (isNone_iff_eq_none.mpr absent))
      dsimp only
      split
      · exact .unopened (Bool.eq_true_of_not_eq_false booted) sourceKnown destKnown (Prod.ext ‹_› rfl)
      · exact .opened (Bool.eq_true_of_not_eq_false booted) sourceKnown destKnown (Prod.ext ‹_› rfl)

theorem ipcSend_answers {msg : IpcMessage} {callerId : PartitionId} {log : WitnessLog}
    (reaches : Reaches N hasher kernel call (.ipcSend edgeId msg callerId) log)
    (sent : ipcSend N hasher { kernel with witnessLog := log } edgeId msg callerId =
      some (inner, next)) : Answers N hasher kernel call (inner.map fun _ => .done) next := by
  unfold ipcSend at sent
  split at sent
  · cases sent
    exact .refused reaches
  · rename_i booted
    dsimp only at sent
    split at sent
    · rename_i e failed
      cases sent
      have step : IpcManager.Step defaultMaxIpcChannels defaultIpcQueueSize kernel.ipc
          (.send edgeId msg callerId, .error e) (kernel.ipc.send defaultMaxIpcChannels
            defaultIpcQueueSize edgeId msg callerId).2 := by
        rw [IpcManager.Step, IpcManager.apply, failed]
        rfl
      rw [IpcManager.failed_unchanged rfl step]
      exact .refused reaches
    · obtain ⟨⟨result, coherence⟩, walked, finished⟩ := map_eq_some_iff.mp sent
      cases finished
      exact .sent reaches (Bool.eq_true_of_not_eq_false booted) (Prod.ext ‹_› rfl) walked

theorem ipcReceive_answers : Answers N hasher kernel (.ipcReceive edgeId)
    ((kernel.ipcReceive edgeId).1.map .message) (kernel.ipcReceive edgeId).2 := by
  unfold ipcReceive
  split
  · exact .unchanged rfl
  · rename_i booted
    dsimp only
    cases outcome : (kernel.ipc.receive defaultMaxIpcChannels defaultIpcQueueSize edgeId).1 with
    | ok msg => exact .received (Bool.eq_true_of_not_eq_false booted) (Prod.ext outcome rfl)
    | error e =>
      have step : IpcManager.Step defaultMaxIpcChannels defaultIpcQueueSize kernel.ipc
          (.receive edgeId, .error e)
          (kernel.ipc.receive defaultMaxIpcChannels defaultIpcQueueSize edgeId).2 := by
        rw [IpcManager.Step, IpcManager.apply, outcome]
        rfl
      rw [IpcManager.failed_unchanged rfl step]
      exact .unchanged rfl

theorem destroyChannel_answers : Answers N hasher kernel (.destroyChannel edgeId)
    ((kernel.destroyChannel N hasher edgeId).1.map fun _ => .done)
    (kernel.destroyChannel N hasher edgeId).2 := by
  unfold destroyChannel
  split
  · exact .unchanged rfl
  · rename_i booted
    dsimp only
    split
    · rename_i failed
      unfold IpcManager.destroyChannel at failed ⊢
      repeat' split at failed
      all_goals first
        | exact .unchanged rfl
        | cases failed
    · exact .closed (Bool.eq_true_of_not_eq_false booted) (Prod.ext ‹_› rfl)

theorem grantDeviceLease_answers {deviceId durationEpochs capHash : Nat} {partition : PartitionId} :
    Answers N hasher kernel (.grantDeviceLease deviceId partition durationEpochs capHash)
      ((kernel.grantDeviceLease N hasher deviceId partition durationEpochs capHash).1.map .lease)
      (kernel.grantDeviceLease N hasher deviceId partition durationEpochs capHash).2 := by
  unfold grantDeviceLease
  split
  · exact .unchanged rfl
  · rename_i booted
    dsimp only
    split
    · exact .unleased (Bool.eq_true_of_not_eq_false booted) (Prod.ext ‹_› rfl)
    · exact .leased (Bool.eq_true_of_not_eq_false booted) (Prod.ext ‹_› rfl)

theorem checkedCreatePartition_answers {config : PartitionConfig} {token : CapToken} :
    Answers N hasher kernel (.checkedCreatePartition config token)
      ((kernel.checkedCreatePartition N hasher config token).1.map .partition)
      (kernel.checkedCreatePartition N hasher config token).2 := by
  unfold checkedCreatePartition
  split
  · exact .refused (.straight (.inr ‹_›))
  · rename_i booted
    dsimp only
    rcases @gated_cases N hasher kernel (writeRequest token .partitionCreate 0) with
      ⟨reason, denied, decided⟩ | ⟨response, tier, allowed, decided⟩
    · rw [decided]
      exact .rejected rfl denied
    · rw [decided]
      exact createPartition_answers (.creation (Bool.eq_true_of_not_eq_false booted) allowed)

theorem checkedIpcSend_answers {msg : IpcMessage} {token : CapToken}
    (sent : kernel.checkedIpcSend N hasher edgeId msg token = some (inner, next)) :
    Answers N hasher kernel (.checkedIpcSend edgeId msg token) (inner.map fun _ => .done) next := by
  unfold checkedIpcSend at sent
  split at sent
  · cases sent
    exact .refused (.straight (.inr ‹_›))
  · rename_i booted
    dsimp only at sent
    rcases @gated_cases N hasher kernel (writeRequest token .ipcSend msg.receiver.asU32) with
      ⟨reason, denied, decided⟩ | ⟨response, tier, allowed, decided⟩
    · rw [decided] at sent
      cases sent
      exact .rejected rfl denied
    · rw [decided] at sent
      exact ipcSend_answers (.send (Bool.eq_true_of_not_eq_false booted) allowed) sent


theorem withTiers_answers {result : Except RvmError TierManager} (ungated : call.presents = none)
    (retiers : ∀ tiers, result = .ok tiers → Retiers kernel call tiers) :
    Answers N hasher kernel call ((kernel.withTiers result).1.map fun _ => .done)
      (kernel.withTiers result).2 := by
  cases result with
  | error e => exact .unchanged ungated
  | ok tiers => exact .retiered (retiers tiers rfl)

theorem moveTier_answers {action : ActionKind} {regionId : Nat} {target : Tier}
    {result : Except RvmError (Tier × TierManager)} (ungated : call.presents = none)
    (moved : ∀ oldTier tiers, result = .ok (oldTier, tiers) →
      Answers N hasher kernel call (.ok (.tier oldTier))
        (emit N hasher { kernel with tierManager := tiers } (witnessRecord action 0 regionId
          (littleEndian (oldTier.index + 256 * target.index))))) :
    Answers N hasher kernel call
      ((kernel.moveTier N hasher action regionId target result).1.map .tier)
      (kernel.moveTier N hasher action regionId target result).2 := by
  cases result with
  | error e => exact .unchanged ungated
  | ok pair => exact moved pair.1 pair.2 rfl

theorem replied_twice {α β : Type} (result : Except RvmError α) (first : α → β)
    (second : β → KernelReply) :
    (result.map first).map second = result.map fun value => second (first value) := by
  cases result <;> rfl

theorem answers_of_step {call : KernelCall} {outcome : KernelOutcome}
    (step : Step N hasher kernel (call, outcome) next) : Answers N hasher kernel call outcome next := by
  obtain ⟨fuel, returned⟩ := step
  dsimp only at returned ⊢
  cases call with
  | boot =>
    cases returned
    exact bootUp_answers rfl
  | tick =>
    obtain ⟨⟨inner, after⟩, ticked, pair⟩ := map_eq_some_iff.mp returned
    cases pair
    unfold tick at ticked
    split at ticked
    · cases ticked
      exact .unchanged rfl
    · obtain ⟨_, walked, finished⟩ := map_eq_some_iff.mp ticked
      cases finished
      exact .ticked (Bool.eq_true_of_not_eq_false ‹_›) walked
  | recordCommunication source target weight =>
    obtain ⟨⟨inner, after⟩, recorded, pair⟩ := map_eq_some_iff.mp returned
    cases pair
    unfold recordCommunication at recorded
    split at recorded
    · cases recorded
      exact .unchanged rfl
    · obtain ⟨_, walked, finished⟩ := map_eq_some_iff.mp recorded
      cases finished
      exact .recorded (Bool.eq_true_of_not_eq_false ‹_›) walked
  | createPartition config =>
    cases returned
    exact createPartition_answers (.straight (.inl rfl))
  | destroyPartition id =>
    obtain ⟨⟨inner, after⟩, destroyed, pair⟩ := map_eq_some_iff.mp returned
    cases pair
    exact destroyPartition_answers destroyed
  | capManagerMut call =>
    obtain ⟨result, applied, pair⟩ := map_eq_some_iff.mp returned
    cases pair
    exact .managed applied
  | enqueuePartition cpu id deadlineUrgency =>
    cases returned
    exact enqueuePartition_answers
  | switchNext cpu =>
    cases returned
    exact .switched
  | executeSplit source =>
    cases returned
    exact executeSplit_answers rfl fun _ => .asked
  | executeMerge absorber absorbed =>
    obtain ⟨⟨inner, after⟩, merged, pair⟩ := map_eq_some_iff.mp returned
    cases pair
    exact executeMerge_answers rfl .asked merged
  | applyDecision decision =>
    obtain ⟨⟨inner, after⟩, applied, pair⟩ := map_eq_some_iff.mp returned
    cases pair
    cases decision with
    | noAction =>
      cases applied
      exact .ignored
    | splitRecommended partition pressure =>
      cases applied
      dsimp only
      rw [replied_twice]
      exact executeSplit_answers rfl fun _ => .recommended
    | mergeRecommended a b mutualCoherence =>
      obtain ⟨⟨survivor, after⟩, merged, pair⟩ := map_eq_some_iff.mp applied
      cases pair
      rw [replied_twice]
      exact executeMerge_answers rfl .recommended merged
  | createChannel source dest =>
    cases returned
    exact createChannel_answers
  | ipcSend edgeId msg callerId =>
    obtain ⟨⟨inner, after⟩, sent, pair⟩ := map_eq_some_iff.mp returned
    cases pair
    exact ipcSend_answers (.straight (.inl rfl)) sent
  | ipcReceive edgeId =>
    cases returned
    exact ipcReceive_answers
  | destroyChannel edgeId =>
    cases returned
    exact destroyChannel_answers
  | registerRegion regionId initialTier =>
    cases returned
    exact withTiers_answers rfl fun _ => .registered
  | recordMemoryAccess regionId =>
    cases returned
    exact withTiers_answers rfl fun _ => .accessed
  | updateRegionCutValue regionId cutValue =>
    cases returned
    exact withTiers_answers rfl fun _ => .updated
  | promoteRegion regionId target =>
    cases returned
    exact moveTier_answers rfl fun _ _ => .promoted
  | demoteRegion regionId target =>
    cases returned
    exact moveTier_answers rfl fun _ _ => .demoted
  | registerDevice info =>
    cases returned
    unfold registerDevice
    split
    · exact .unchanged rfl
    · exact .registered ‹_›
  | grantDeviceLease deviceId partition durationEpochs capHash =>
    cases returned
    exact grantDeviceLease_answers
  | revokeDeviceLease leaseId =>
    cases returned
    unfold revokeDeviceLease
    split
    · exact .unchanged rfl
    · exact .returned ‹_›
  | checkedCreatePartition config token =>
    cases returned
    exact checkedCreatePartition_answers
  | checkedIpcSend edgeId msg token =>
    obtain ⟨⟨inner, after⟩, sent, pair⟩ := map_eq_some_iff.mp returned
    cases pair
    exact checkedIpcSend_answers sent
  | enterDegradedMode =>
    cases returned
    exact .degraded
  | exitDegradedMode =>
    cases returned
    exact .restored

end Kernel

end Rvm
