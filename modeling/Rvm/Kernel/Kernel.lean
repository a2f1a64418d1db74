import Rvm.Cap.Manager
import Rvm.Coherence.Engine
import Rvm.Memory.Tier
import Rvm.Partition.Device
import Rvm.Partition.Ipc
import Rvm.Partition.Manager
import Rvm.Sched.Scheduler
import Rvm.Security.Gate

/-!
Owns the kernel of `rvm-kernel/src/lib.rs`: its subsystems, its public operations with the witness
records they append, and one call as a labelled step. The witness log's capacity and hash
functions are parameters. An operation whose walk along an adjacency list never ends returns
`none`. The stored `RvmConfig`, which no operation reads, is left out.
-/

namespace Rvm

open Cap Coherence Memory Partition Sched Security Witness

def defaultMaxCpus : Nat := 8
def defaultCapCapacity : Nat := 256
def defaultMaxIpcChannels : Nat := 128
def defaultIpcQueueSize : Nat := 16
def defaultMaxTierRegions : Nat := 256
def defaultMaxDevices : Nat := 32
def defaultMaxLeases : Nat := 64

def recencyDecayPerEpoch : Nat := 200

inductive BootPhase where
  | halInit | memoryInit | capabilityInit | witnessInit | schedulerInit | rootPartition | handoff
deriving DecidableEq, Repr

def BootPhase.asU8 : BootPhase → Nat
  | .halInit => 0
  | .memoryInit => 1
  | .capabilityInit => 2
  | .witnessInit => 3
  | .schedulerInit => 4
  | .rootPartition => 5
  | .handoff => 6

def BootPhase.next : BootPhase → Option BootPhase
  | .halInit => some .memoryInit
  | .memoryInit => some .capabilityInit
  | .capabilityInit => some .witnessInit
  | .witnessInit => some .schedulerInit
  | .schedulerInit => some .rootPartition
  | .rootPartition => some .handoff
  | .handoff => none

structure BootTracker where
  current : Option BootPhase
deriving DecidableEq, Repr

def BootTracker.new : BootTracker := ⟨some .halInit⟩

def BootTracker.completePhase (tracker : BootTracker) (phase : BootPhase) :
    Except RvmError BootTracker :=
  match tracker.current with
  | some current => if current = phase then .ok ⟨phase.next⟩ else .error .internalError
  | none => .error .unsupported

structure Kernel where
  partitions : PartitionManager
  scheduler : Scheduler
  witnessLog : WitnessLog
  capManager : CapabilityManager
  coherence : CoherenceEngine
  ipc : IpcManager
  tierManager : TierManager
  devices : DeviceLeaseManager
  boot : BootTracker
  booted : Bool

/-- The part of `PartitionConfig` that creation reads. -/
structure PartitionConfig where
  vcpuCount : Nat
deriving DecidableEq, Repr

inductive ApplyResult where
  | noAction
  | split (source child : PartitionId)
  | merged (survivor absorbed : PartitionId)
deriving DecidableEq, Repr

/-- The fields the kernel fills in its own records, which are all of tier one. -/
def witnessRecord (action : ActionKind) (actorPartitionId targetObjectId : Nat)
    (payload : Vector UInt8 8) : WitnessRecord :=
  { WitnessRecord.zeroed with
    actionKind := action.asU8
    proofTier := 1
    actorPartitionId := actorPartitionId
    targetObjectId := targetObjectId
    payload := payload }

def noPayload : Vector UInt8 8 := Vector.replicate 8 0

def bootWitness (phase : BootPhase) : WitnessRecord :=
  witnessRecord (if phase = .handoff then .bootComplete else .bootAttestation) 0 0
    (littleEndian phase.asU8)

def bootPhases : List BootPhase :=
  [.halInit, .memoryInit, .capabilityInit, .witnessInit, .schedulerInit, .rootPartition, .handoff]

namespace Kernel

def new (cap : CapManagerConfig) : Kernel where
  partitions := .new
  scheduler := .new
  witnessLog := .new
  capManager := .new cap
  coherence := .new
  ipc := .new
  tierManager := .new
  devices := .new
  boot := .new
  booted := false

section Operations

variable (N : Nat) (hasher : ChainHasher) (kernel : Kernel)

def emit (record : WitnessRecord) : Kernel :=
  { kernel with witnessLog := (kernel.witnessLog.append N hasher record).2 }

def completePhases : Kernel → List BootPhase → Except RvmError Unit × Kernel
  | kernel, [] => (.ok (), { kernel with booted := true })
  | kernel, phase :: rest =>
    match kernel.boot.completePhase phase with
    | .error e => (.error e, kernel)
    | .ok tracker =>
      completePhases ({ kernel with boot := tracker }.emit N hasher (bootWitness phase)) rest

def bootUp : Except RvmError Unit × Kernel := completePhases N hasher kernel bootPhases

/-! #### Epochs -/

def syncPartitionScores : Kernel :=
  { kernel with
    partitions := kernel.partitions.activeIds.foldl (fun partitions id =>
      partitions.modify id fun partition =>
        { partition with
          coherence := kernel.coherence.score id
          cutPressure := kernel.coherence.pressure id }) kernel.partitions }

def advanceEpoch (coherence : CoherenceEngine) : Kernel :=
  syncPartitionScores
    { kernel with
      scheduler := (kernel.scheduler.tickEpoch defaultMaxCpus).2
      coherence := coherence
      tierManager := kernel.tierManager.advanceEpoch.decayRecency recencyDecayPerEpoch }

def tick : Option (Except RvmError (EpochSummary × CoherenceDecision) × Kernel) :=
  if kernel.booted = false then some (.error .invalidPartitionState, kernel)
  else
    (kernel.coherence.tick 20).map fun ticked =>
      let summary := (kernel.scheduler.tickEpoch defaultMaxCpus).1
      (.ok (summary, ticked.1),
        (kernel.advanceEpoch ticked.2).emit N hasher
          (witnessRecord .schedulerEpoch 0 0 (littleEndian summary.switchCount)))

def recordCommunication (source target : PartitionId) (weight : Nat) :
    Option (Except RvmError Unit × Kernel) :=
  if kernel.booted = false then some (.error .invalidPartitionState, kernel)
  else
    (kernel.coherence.recordCommunication source target weight).map fun recorded =>
      (recorded.1.mapError fun _ => .internalError, { kernel with coherence := recorded.2 })

/-! #### Partitions -/

def register (partitions : PartitionManager) (id : PartitionId) (record : WitnessRecord) : Kernel :=
  { kernel with
    partitions := partitions
    coherence := (kernel.coherence.addPartition id).2 }.emit N hasher record

def createPartition (config : PartitionConfig) : Except RvmError PartitionId × Kernel :=
  if kernel.booted = false then (.error .invalidPartitionState, kernel)
  else
    match kernel.partitions.create .agent config.vcpuCount kernel.scheduler.currentEpoch with
    | .error e => (.error e, kernel)
    | .ok (id, partitions) =>
      (.ok id,
        kernel.register N hasher partitions id
          (witnessRecord .partitionCreate PartitionId.hypervisor.asU32 id.asU32 noPayload))

/-- The end of a destruction, after the coherence graph forgot the partition. -/
def finishDestroy (id : PartitionId) (coherence : CoherenceEngine) :
    Except RvmError Unit × Kernel :=
  match kernel.partitions.remove id with
  | .error e => (.error e, { kernel with coherence := coherence })
  | .ok partitions =>
    (.ok (),
      { kernel with coherence := coherence, partitions := partitions }.emit N hasher
        (witnessRecord .partitionDestroy PartitionId.hypervisor.asU32 id.asU32 noPayload))

def destroyPartition (id : PartitionId) : Option (Except RvmError Unit × Kernel) :=
  if kernel.booted = false then some (.error .invalidPartitionState, kernel)
  else
    match kernel.partitions.get id with
    | none => some (.error .partitionNotFound, kernel)
    | some partition =>
      if validTransition partition.state .destroyed = false then
        some (.error .invalidPartitionState, kernel)
      else
        (kernel.coherence.removePartition id).map fun removed =>
          kernel.finishDestroy N hasher id removed.2

def enqueuePartition (cpu : Nat) (id : PartitionId) (deadlineUrgency : Nat) :
    Except RvmError Unit × Kernel :=
  if kernel.booted = false then (.error .invalidPartitionState, kernel)
  else if (kernel.partitions.get id).isNone then (.error .partitionNotFound, kernel)
  else
    let enqueued := kernel.scheduler.enqueue defaultMaxCpus cpu id deadlineUrgency
      (kernel.coherence.pressure id)
    (if enqueued.1 then .ok () else .error .resourceLimitExceeded,
      { kernel with scheduler := enqueued.2 })

def switchNext (cpu : Nat) : Option (Option PartitionId × PartitionId) × Kernel :=
  let switched := kernel.scheduler.switchNext defaultMaxCpus cpu
  (switched.1, { kernel with scheduler := switched.2 })

/-! #### Split and merge -/

def executeSplit (source : PartitionId) : Except RvmError PartitionId × Kernel :=
  if kernel.booted = false then (.error .invalidPartitionState, kernel)
  else
    match kernel.partitions.get source with
    | none => (.error .partitionNotFound, kernel)
    | some partition =>
      match kernel.partitions.create .agent partition.vcpuCount kernel.scheduler.currentEpoch with
      | .error e => (.error e, kernel)
      | .ok (child, partitions) =>
        (.ok child,
          kernel.register N hasher partitions child
            (witnessRecord .structuralSplit source.asU32 child.asU32 noPayload))

def checkMerge (absorber absorbed : PartitionId) : Except RvmError Unit :=
  if kernel.booted = false then .error .invalidPartitionState
  else if (kernel.partitions.get absorber).isNone then .error .partitionNotFound
  else if (kernel.partitions.get absorbed).isNone then .error .partitionNotFound
  else if mergePreconditionsMet (kernel.coherence.score absorber) (kernel.coherence.score absorbed)
  then .ok ()
  else .error .invalidPartitionState

/-- The absorbed partition leaves the coherence graph; the partition manager is
not called. -/
def executeMerge (absorber absorbed : PartitionId) :
    Option (Except RvmError PartitionId × Kernel) :=
  match kernel.checkMerge absorber absorbed with
  | .error e => some (.error e, kernel)
  | .ok () =>
    (kernel.coherence.removePartition absorbed).map fun removed =>
      (.ok absorber,
        { kernel with coherence := removed.2 }.emit N hasher
          (witnessRecord .structuralMerge absorber.asU32 absorbed.asU32 noPayload))

def applyDecision : CoherenceDecision → Option (Except RvmError ApplyResult × Kernel)
  | .noAction => some (.ok .noAction, kernel)
  | .splitRecommended partition _ =>
    let result := kernel.executeSplit N hasher partition
    some (result.1.map fun child => .split partition child, result.2)
  | .mergeRecommended a b _ =>
    (kernel.executeMerge N hasher a b).map fun result =>
      (result.1.map fun survivor => .merged survivor b, result.2)

/-! #### Channels -/

def createChannel (source dest : PartitionId) : Except RvmError Nat × Kernel :=
  if kernel.booted = false then (.error .invalidPartitionState, kernel)
  else if (kernel.partitions.get source).isNone ∨ (kernel.partitions.get dest).isNone then
    (.error .partitionNotFound, kernel)
  else
    let created := kernel.ipc.createChannel defaultMaxIpcChannels source dest
    match created.1 with
    | .error e => (.error e, { kernel with ipc := created.2 })
    | .ok edgeId =>
      (.ok edgeId,
        { kernel with ipc := created.2 }.emit N hasher
          (witnessRecord .commEdgeCreate source.asU32 dest.asU32 noPayload))

/-- The sender's and receiver's coherence edge grows by one; failures of the
graph are ignored. -/
def ipcSend (edgeId : Nat) (msg : IpcMessage) (callerId : PartitionId) :
    Option (Except RvmError Unit × Kernel) :=
  if kernel.booted = false then some (.error .invalidPartitionState, kernel)
  else
    let sent := kernel.ipc.send defaultMaxIpcChannels defaultIpcQueueSize edgeId msg callerId
    match sent.1 with
    | .error e => some (.error e, { kernel with ipc := sent.2 })
    | .ok () =>
      (kernel.coherence.recordCommunication msg.sender msg.receiver 1).map fun recorded =>
        (.ok (),
          { kernel with ipc := sent.2, coherence := recorded.2 }.emit N hasher
            (witnessRecord .ipcSend msg.sender.asU32 msg.receiver.asU32 noPayload))

def ipcReceive (edgeId : Nat) : Except RvmError (Option IpcMessage) × Kernel :=
  if kernel.booted = false then (.error .invalidPartitionState, kernel)
  else
    let received := kernel.ipc.receive defaultMaxIpcChannels defaultIpcQueueSize edgeId
    (received.1, { kernel with ipc := received.2 })

def destroyChannel (edgeId : Nat) : Except RvmError Unit × Kernel :=
  if kernel.booted = false then (.error .invalidPartitionState, kernel)
  else
    let destroyed := kernel.ipc.destroyChannel defaultMaxIpcChannels edgeId
    match destroyed.1 with
    | .error e => (.error e, { kernel with ipc := destroyed.2 })
    | .ok () =>
      (.ok (),
        { kernel with ipc := destroyed.2 }.emit N hasher
          (witnessRecord .commEdgeDestroy 0 0 (littleEndian edgeId)))

/-! #### Memory tiers -/

/-- The common end of the tier operations that append no record. -/
def withTiers (result : Except RvmError TierManager) : Except RvmError Unit × Kernel :=
  match result with
  | .error e => (.error e, kernel)
  | .ok tierManager => (.ok (), { kernel with tierManager := tierManager })

def registerRegion (regionId : Nat) (initialTier : Tier) : Except RvmError Unit × Kernel :=
  kernel.withTiers (kernel.tierManager.register defaultMaxTierRegions regionId initialTier)

def recordMemoryAccess (regionId : Nat) : Except RvmError Unit × Kernel :=
  kernel.withTiers (kernel.tierManager.recordAccess defaultMaxTierRegions regionId)

def updateRegionCutValue (regionId cutValue : Nat) : Except RvmError Unit × Kernel :=
  kernel.withTiers (kernel.tierManager.updateCutValue defaultMaxTierRegions regionId cutValue)

/-- The common end of promotion and demotion: both tiers go to the payload. -/
def moveTier (action : ActionKind) (regionId : Nat) (target : Tier)
    (result : Except RvmError (Tier × TierManager)) : Except RvmError Tier × Kernel :=
  match result with
  | .error e => (.error e, kernel)
  | .ok (oldTier, tierManager) =>
    (.ok oldTier,
      { kernel with tierManager := tierManager }.emit N hasher
        (witnessRecord action 0 regionId (littleEndian (oldTier.index + 256 * target.index))))

def promoteRegion (regionId : Nat) (target : Tier) : Except RvmError Tier × Kernel :=
  kernel.moveTier N hasher .regionPromote regionId target
    (kernel.tierManager.promote defaultMaxTierRegions regionId target)

def demoteRegion (regionId : Nat) (target : Tier) : Except RvmError Tier × Kernel :=
  kernel.moveTier N hasher .regionDemote regionId target
    (kernel.tierManager.demote defaultMaxTierRegions regionId target)

/-! #### Devices -/

def registerDevice (info : DeviceInfo) : Except RvmError Nat × Kernel :=
  match kernel.devices.registerDevice defaultMaxDevices info with
  | .error e => (.error e, kernel)
  | .ok (id, devices) => (.ok id, { kernel with devices := devices })

def grantDeviceLease (deviceId : Nat) (partition : PartitionId) (durationEpochs capHash : Nat) :
    Except RvmError Nat × Kernel :=
  if kernel.booted = false then (.error .invalidPartitionState, kernel)
  else
    let granted := kernel.devices.grantLease defaultMaxDevices defaultMaxLeases deviceId partition
      durationEpochs kernel.scheduler.currentEpoch capHash
    match granted.1 with
    | .error e => (.error e, { kernel with devices := granted.2 })
    | .ok leaseId =>
      (.ok leaseId,
        { kernel with devices := granted.2 }.emit N hasher
          (witnessRecord .deviceLeaseGrant partition.asU32 deviceId noPayload))

def revokeDeviceLease (leaseId : Nat) : Except RvmError Unit × Kernel :=
  match kernel.devices.revokeLease defaultMaxDevices defaultMaxLeases leaseId with
  | .error e => (.error e, kernel)
  | .ok devices =>
    (.ok (),
      { kernel with devices := devices }.emit N hasher
        (witnessRecord .deviceLeaseRevoke 0 0 (littleEndian leaseId)))

/-! #### Security-gated operations -/

def writeRequest (token : CapToken) (action : ActionKind) (targetObjectId : Nat) : GateRequest where
  token := token
  requiredType := .partition
  requiredRights := .write
  proofCommitment := none
  requireP3 := false
  p3WitnessData := none
  action := action
  targetObjectId := targetObjectId
  timestampNs := 0

def gated (request : GateRequest) : Except SecurityError GateResponse × Kernel :=
  let decided := checkAndExecute N hasher kernel.witnessLog request
  (decided.1, { kernel with witnessLog := decided.2 })

/-- The gate requests `PartitionCreate` of object `0`, then the creation appends
its own record. -/
def checkedCreatePartition (config : PartitionConfig) (token : CapToken) :
    Except RvmError PartitionId × Kernel :=
  if kernel.booted = false then (.error .invalidPartitionState, kernel)
  else
    let decided := kernel.gated N hasher (writeRequest token .partitionCreate 0)
    match decided.1 with
    | .error _ => (.error .insufficientCapability, decided.2)
    | .ok _ => decided.2.createPartition N hasher config

def checkedIpcSend (edgeId : Nat) (msg : IpcMessage) (token : CapToken) :
    Option (Except RvmError Unit × Kernel) :=
  if kernel.booted = false then some (.error .invalidPartitionState, kernel)
  else
    let decided := kernel.gated N hasher (writeRequest token .ipcSend msg.receiver.asU32)
    match decided.1 with
    | .error _ => some (.error .insufficientCapability, decided.2)
    | .ok _ => decided.2.ipcSend N hasher edgeId msg msg.sender

/-! #### Degraded mode -/

def enterDegradedMode : Kernel :=
  { kernel with scheduler := kernel.scheduler.enterDegraded }.emit N hasher
    (witnessRecord .degradedModeEntered 0 0 noPayload)

def exitDegradedMode : Kernel :=
  { kernel with scheduler := kernel.scheduler.exitDegraded }.emit N hasher
    (witnessRecord .degradedModeExited 0 0 noPayload)

end Operations

theorem syncPartitionScores_slots {kernel : Kernel} :
    kernel.syncPartitionScores.partitions.count = kernel.partitions.count ∧
      ∀ i, (kernel.syncPartitionScores.partitions.partitions i).map Partition.id =
        (kernel.partitions.partitions i).map Partition.id := by
  unfold syncPartitionScores
  dsimp only
  generalize kernel.partitions.activeIds = ids
  generalize kernel.partitions = partitions
  induction ids generalizing partitions with
  | nil => exact ⟨rfl, fun _ => rfl⟩
  | cons id rest ih =>
    rw [List.foldl_cons]
    obtain ⟨sameCount, sameIds⟩ := ih (partitions.modify id fun partition =>
      { partition with
        coherence := kernel.coherence.score id
        cutPressure := kernel.coherence.pressure id })
    refine ⟨sameCount.trans ?_, fun i => (sameIds i).trans ?_⟩
    · unfold PartitionManager.modify
      split <;> rfl
    · exact PartitionManager.modify_ids (fun partition => by rfl) i

end Kernel

/-- The operations that change the kernel; `capManagerMut` is a call on the
capability manager that `cap_manager_mut` hands out, while appends to the log that
`witness_log` lends are no call of the kernel. -/
inductive KernelCall where
  | boot
  | tick
  | recordCommunication (source target : PartitionId) (weight : Nat)
  | createPartition (config : PartitionConfig)
  | destroyPartition (id : PartitionId)
  | capManagerMut (call : Cap.Call)
  | enqueuePartition (cpu : Nat) (id : PartitionId) (deadlineUrgency : Nat)
  | switchNext (cpu : Nat)
  | executeSplit (source : PartitionId)
  | executeMerge (absorber absorbed : PartitionId)
  | applyDecision (decision : CoherenceDecision)
  | createChannel (source dest : PartitionId)
  | ipcSend (edgeId : Nat) (msg : IpcMessage) (callerId : PartitionId)
  | ipcReceive (edgeId : Nat)
  | destroyChannel (edgeId : Nat)
  | registerRegion (regionId : Nat) (initialTier : Tier)
  | recordMemoryAccess (regionId : Nat)
  | updateRegionCutValue (regionId cutValue : Nat)
  | promoteRegion (regionId : Nat) (target : Tier)
  | demoteRegion (regionId : Nat) (target : Tier)
  | registerDevice (info : DeviceInfo)
  | grantDeviceLease (deviceId : Nat) (partition : PartitionId) (durationEpochs capHash : Nat)
  | revokeDeviceLease (leaseId : Nat)
  | checkedCreatePartition (config : PartitionConfig) (token : CapToken)
  | checkedIpcSend (edgeId : Nat) (msg : IpcMessage) (token : CapToken)
  | enterDegradedMode
  | exitDegradedMode

/-- What a successful call returns. -/
inductive KernelReply where
  | done
  | epoch (summary : EpochSummary) (decision : CoherenceDecision)
  | partition (id : PartitionId)
  | capability (outcome : Cap.Outcome)
  | switched (ids : Option (Option PartitionId × PartitionId))
  | applied (result : ApplyResult)
  | edge (edgeId : Nat)
  | message (msg : Option IpcMessage)
  | tier (oldTier : Tier)
  | device (id : Nat)
  | lease (id : Nat)

abbrev KernelOutcome := Except RvmError KernelReply

namespace Kernel

def replied {α : Type} (reply : α → KernelReply) (result : Except RvmError α × Kernel) :
    KernelOutcome × Kernel :=
  (result.1.map reply, result.2)

/-- One call; `none` if it does not return. Only a capability revocation reads
the fuel. -/
def apply (N : Nat) (hasher : ChainHasher) (fuel : Nat) (kernel : Kernel) :
    KernelCall → Option (KernelOutcome × Kernel)
  | .boot => some (replied (fun _ => .done) (kernel.bootUp N hasher))
  | .tick => (kernel.tick N hasher).map (replied fun result => .epoch result.1 result.2)
  | .recordCommunication source target weight =>
    (kernel.recordCommunication source target weight).map (replied fun _ => .done)
  | .createPartition config => some (replied .partition (kernel.createPartition N hasher config))
  | .destroyPartition id => (kernel.destroyPartition N hasher id).map (replied fun _ => .done)
  | .capManagerMut call =>
    (kernel.capManager.apply defaultCapCapacity fuel call).map fun result =>
      (.ok (.capability result.1), { kernel with capManager := result.2 })
  | .enqueuePartition cpu id deadlineUrgency =>
    some (replied (fun _ => .done) (kernel.enqueuePartition cpu id deadlineUrgency))
  | .switchNext cpu =>
    let result := kernel.switchNext cpu
    some (.ok (.switched result.1), result.2)
  | .executeSplit source => some (replied .partition (kernel.executeSplit N hasher source))
  | .executeMerge absorber absorbed =>
    (kernel.executeMerge N hasher absorber absorbed).map (replied .partition)
  | .applyDecision decision => (kernel.applyDecision N hasher decision).map (replied .applied)
  | .createChannel source dest => some (replied .edge (kernel.createChannel N hasher source dest))
  | .ipcSend edgeId msg callerId =>
    (kernel.ipcSend N hasher edgeId msg callerId).map (replied fun _ => .done)
  | .ipcReceive edgeId => some (replied .message (kernel.ipcReceive edgeId))
  | .destroyChannel edgeId => some (replied (fun _ => .done) (kernel.destroyChannel N hasher edgeId))
  | .registerRegion regionId initialTier =>
    some (replied (fun _ => .done) (kernel.registerRegion regionId initialTier))
  | .recordMemoryAccess regionId =>
    some (replied (fun _ => .done) (kernel.recordMemoryAccess regionId))
  | .updateRegionCutValue regionId cutValue =>
    some (replied (fun _ => .done) (kernel.updateRegionCutValue regionId cutValue))
  | .promoteRegion regionId target =>
    some (replied .tier (kernel.promoteRegion N hasher regionId target))
  | .demoteRegion regionId target =>
    some (replied .tier (kernel.demoteRegion N hasher regionId target))
  | .registerDevice info => some (replied .device (kernel.registerDevice info))
  | .grantDeviceLease deviceId partition durationEpochs capHash =>
    some (replied .lease
      (kernel.grantDeviceLease N hasher deviceId partition durationEpochs capHash))
  | .revokeDeviceLease leaseId =>
    some (replied (fun _ => .done) (kernel.revokeDeviceLease N hasher leaseId))
  | .checkedCreatePartition config token =>
    some (replied .partition (kernel.checkedCreatePartition N hasher config token))
  | .checkedIpcSend edgeId msg token =>
    (kernel.checkedIpcSend N hasher edgeId msg token).map (replied fun _ => .done)
  | .enterDegradedMode => some (.ok .done, kernel.enterDegradedMode N hasher)
  | .exitDegradedMode => some (.ok .done, kernel.exitDegradedMode N hasher)

def Step (N : Nat) (hasher : ChainHasher) (kernel : Kernel) (label : KernelCall × KernelOutcome)
    (next : Kernel) : Prop :=
  ∃ fuel, kernel.apply N hasher fuel label.1 = some (label.2, next)

end Kernel

end Rvm
