import Rvm.Foundation.Run
import Rvm.Host.Adapter

/-!
Owns the lifecycle of `rvm-launch`: its table, checkpoints and their lineage binding, errors
and event records (`state.rs`); one instance with its guards, each operation a call on the
instance, the agent registry and the log (`instance.rs`, `instance_guard.rs`); and a fleet of
instances that share the two.
-/

namespace Rvm.Launch

open Foundation Host

inductive InstanceState where
  | created | running | suspended | terminated
deriving DecidableEq, Repr

def InstanceState.asU8 (state : InstanceState) : Nat := state.ctorIdx

def InstanceState.isTerminal : InstanceState → Bool
  | .terminated => true
  | _ => false

inductive LifecycleOp where
  | start | suspend | resume | checkpoint | restore | terminate
deriving DecidableEq, Repr

def LifecycleOp.asU8 (op : LifecycleOp) : Nat := op.ctorIdx

def isLegal (state : InstanceState) : LifecycleOp → Bool
  | .start => state == .created
  | .suspend => state == .running
  | .resume => state == .suspended
  | .checkpoint => state == .running || state == .suspended
  | .restore => state == .created || state == .suspended
  | .terminate => !state.isTerminal

structure Checkpoint where
  baseIdentity : Octets 32
  origin : Nat
  sequence : Nat
  capturedState : InstanceState
  memoryPages : Nat
  witnessSequence : Nat
deriving DecidableEq

def Checkpoint.belongsTo (checkpoint : Checkpoint) (identity : Octets 32) : Bool :=
  checkpoint.baseIdentity == identity

def Checkpoint.lineageTag (checkpoint : Checkpoint) : Nat :=
  fnv1a32 checkpoint.baseIdentity.toList

inductive LaunchError where
  | illegalTransition (before : InstanceState) (op : LifecycleOp)
  | lineageMismatch
  | executableMismatch
  | host (reason : HostError)
  | backend (reason : RvmError)
deriving DecidableEq, Repr

inductive LaunchEvent where
  | instanceCreated | instanceStarted | instanceSuspended | instanceResumed | checkpointTaken
  | checkpointRestored | checkpointRejected | instanceTerminated | illegalTransition
  | contextPermitRejected | executableRejected
deriving DecidableEq, Repr

namespace LaunchEvent

def asU8 (event : LaunchEvent) : Nat := event.ctorIdx + 1

def actionKind : LaunchEvent → ActionKind
  | .instanceCreated => .proofVerifiedP2
  | .instanceStarted => .taskSpawn
  | .instanceSuspended => .partitionSuspend
  | .instanceResumed => .partitionResume
  | .checkpointTaken => .partitionHibernate
  | .checkpointRestored => .partitionReconstruct
  | .checkpointRejected | .illegalTransition | .contextPermitRejected | .executableRejected =>
    .proofRejected
  | .instanceTerminated => .taskTerminate

def proofTier : LaunchEvent → Nat
  | .instanceCreated | .checkpointTaken | .checkpointRestored | .checkpointRejected
  | .executableRejected => 2
  | _ => 1

end LaunchEvent

structure LaunchWitnessContext where
  instanceId : Nat
  rvfIdentity : Octets 32
  partition : PartitionId
  timestampNs : Nat

def buildRecord (event : LaunchEvent) (ctx : LaunchWitnessContext) (state : InstanceState)
    (detail : Nat) : WitnessRecord :=
  { WitnessRecord.zeroed with
    actionKind := event.actionKind.asU8
    proofTier := event.proofTier
    flags := event.asU8
    actorPartitionId := ctx.partition.asU32
    targetObjectId := ctx.instanceId
    capabilityHash := fnv1a32 ctx.rvfIdentity.toList
    timestampNs := ctx.timestampNs
    payload := identityPayload ctx.rvfIdentity
    aux := auxWords event.asU8 state.asU8 0 0 detail }

open Foundation.Call Witness Wasm

abbrev SeqRange := Nat × Nat

structure Instance where
  id : Nat
  adapter : HostAdapter
  package : VerifiedPackage
  isolation : IsolationContext
  state : InstanceState
  agent : Option AgentId
  checkpoints : Nat
  ranges : List SeqRange

/-- What an operation of an instance works on. -/
structure Scene where
  own : Instance
  registry : Registry

abbrev LaunchCall (α : Type) := Call LaunchError Scene α

namespace Instance

def witnessContext (own : Instance) (timestampNs : Nat) : LaunchWitnessContext :=
  ⟨own.id, own.package.identity, own.isolation.placement.partition, timestampNs⟩

def recordRange (start stop : Nat) (own : Instance) : Instance :=
  if stop > start then { own with ranges := own.ranges ++ [(start, stop)] } else own

end Instance

namespace Scene

def totalEmitted (here : Scene) : Nat := here.registry.writes.length

def setOwn (change : Instance → Instance) (here : Scene) : Scene :=
  { here with own := change here.own }

def emit (event : LaunchEvent) (ctx : LaunchWitnessContext) (state : InstanceState) (detail : Nat)
    (here : Scene) : Scene :=
  { here with registry := { here.registry with
    writes := here.registry.writes ++ [.append (buildRecord event ctx state detail)] } }

def recordRange (start : Nat) (here : Scene) : Scene :=
  here.setOwn (.recordRange start here.totalEmitted)

end Scene

def onAgents {α : Type} (call : RegistryCall α) : LaunchCall α :=
  translate .backend (onPart Scene.registry (fun here registry => { here with registry }) call)

namespace Instance

def create (id : Nat) (adapter : HostAdapter) (package : VerifiedPackage) (placement : Placement)
    (timestampNs : Nat) : Call LaunchError (List WitnessCall) Instance := do
  let start := (← get).length
  let isolation ← translate .host (adapter.prepare package placement timestampNs)
  let ctx : LaunchWitnessContext := ⟨id, package.identity, placement.partition, timestampNs⟩
  modify (· ++ [.append (buildRecord .instanceCreated ctx .created
    (u32Capped isolation.granted.length))])
  return ⟨id, adapter, package, isolation, .created, none, 0, [(start, (← get).length)]⟩

/-- Refuse an operation that the table does not allow, after recording the refusal. -/
def guard (op : LifecycleOp) (timestampNs : Nat) : LaunchCall Unit := do
  let here ← get
  let own := here.own
  refuseIf (isLegal own.state op = false) (.illegalTransition own.state op) fun here =>
    (here.emit .illegalTransition (own.witnessContext timestampNs) own.state op.asU8).recordRange
      here.totalEmitted

def guardExecutable (sha256 : List UInt8 → Octets 32) (module : List UInt8) (timestampNs : Nat)
    (start : Nat) : LaunchCall Unit := do
  let here ← get
  let own := here.own
  refuseIf (own.package.acceptsWasm sha256 module = false) .executableMismatch fun here =>
    (here.emit .executableRejected (own.witnessContext timestampNs) own.state
      (fnv1a32 module)).recordRange start

def spawnAgent (module : List UInt8) (timestampNs : Nat) : LaunchCall Unit := do
  let here ← get
  let agent ← translate .host (onPart Scene.registry (fun here registry => { here with registry })
    (here.own.adapter.spawn here.own.isolation module timestampNs))
  onAgents (Registry.activate agent)
  modify (Scene.setOwn fun own => { own with agent := some agent })

def enter (event : LaunchEvent) (state : InstanceState) (timestampNs detail start : Nat) :
    LaunchCall Unit := do
  modify (Scene.setOwn fun own => { own with state := state })
  let here ← get
  modify (Scene.emit event (here.own.witnessContext timestampNs) here.own.state detail)
  modify (Scene.recordRange start)

def start (sha256 : List UInt8 → Octets 32) (module : List UInt8) (timestampNs : Nat) :
    LaunchCall Unit := do
  guard .start timestampNs
  let start := (← get).totalEmitted
  guardExecutable sha256 module timestampNs start
  spawnAgent module timestampNs
  enter .instanceStarted .running timestampNs (u32Capped module.length) start

def withAgent (call : AgentId → RegistryCall Unit) : LaunchCall Unit := do
  let here ← get
  match here.own.agent with
  | some agent => onAgents (call agent)
  | none => pure ()

def suspend (timestampNs : Nat) : LaunchCall Unit := do
  guard .suspend timestampNs
  let start := (← get).totalEmitted
  withAgent Registry.suspend
  enter .instanceSuspended .suspended timestampNs 0 start

def resume (timestampNs : Nat) : LaunchCall Unit := do
  guard .resume timestampNs
  let start := (← get).totalEmitted
  withAgent Registry.resume
  enter .instanceResumed .running timestampNs 0 start

def checkpoint (timestampNs : Nat) : LaunchCall Checkpoint := do
  guard .checkpoint timestampNs
  let here ← get
  let start := here.totalEmitted
  let own := here.own
  let checkpoint : Checkpoint := ⟨own.package.identity, own.id, own.checkpoints, own.state,
    own.isolation.placement.maxMemoryPages, start⟩
  -- `saturating_add`
  modify (Scene.setOwn fun own => { own with checkpoints := u32Capped (own.checkpoints + 1) })
  modify (Scene.emit .checkpointTaken (own.witnessContext timestampNs) own.state
    checkpoint.sequence)
  modify (Scene.recordRange start)
  return checkpoint

def restore (sha256 : List UInt8 → Octets 32) (checkpoint : Checkpoint) (module : List UInt8)
    (timestampNs : Nat) : LaunchCall Unit := do
  let here ← get
  let start := here.totalEmitted
  let own := here.own
  -- The lineage is checked before the table.
  refuseIf (checkpoint.belongsTo own.package.identity = false) .lineageMismatch fun here =>
    (here.emit .checkpointRejected (own.witnessContext timestampNs) own.state
      checkpoint.lineageTag).recordRange start
  guard .restore timestampNs
  if own.state = .created then
    guardExecutable sha256 module timestampNs start
    spawnAgent module timestampNs
  else
    withAgent Registry.resume
  enter .checkpointRestored .running timestampNs (u32Capped checkpoint.origin) start

def terminate (timestampNs : Nat) : LaunchCall Unit := do
  guard .terminate timestampNs
  let here ← get
  let start := here.totalEmitted
  modify (Scene.setOwn fun own => { own with agent := none })
  match here.own.agent with
  | some agent => onAgents (Registry.terminate agent)
  | none => pure ()
  enter .instanceTerminated .terminated timestampNs here.own.checkpoints start

def witness (N : Nat) (own : Instance) (log : WitnessLog) : List WitnessRecord :=
  let records := ((List.range (log.len N)).filterMap (log.get N)).filter fun record =>
    own.ranges.any fun range => record.sequence ≥ range.1 && record.sequence < range.2
  records.mergeSort fun left right => left.sequence ≤ right.sequence

end Instance

inductive LifecycleCall where
  | start (module : List UInt8) (timestampNs : Nat)
  | suspend (timestampNs : Nat)
  | resume (timestampNs : Nat)
  | checkpoint (timestampNs : Nat)
  | restore (checkpoint : Checkpoint) (module : List UInt8) (timestampNs : Nat)
  | terminate (timestampNs : Nat)

def LifecycleCall.make (sha256 : List UInt8 → Octets 32) :
    LifecycleCall → LaunchCall (Option Checkpoint)
  | .start module timestampNs => (fun _ => none) <$> Instance.start sha256 module timestampNs
  | .suspend timestampNs => (fun _ => none) <$> Instance.suspend timestampNs
  | .resume timestampNs => (fun _ => none) <$> Instance.resume timestampNs
  | .checkpoint timestampNs => some <$> Instance.checkpoint timestampNs
  | .restore snapshot module timestampNs =>
    (fun _ => none) <$> Instance.restore sha256 snapshot module timestampNs
  | .terminate timestampNs => (fun _ => none) <$> Instance.terminate timestampNs

structure Fleet where
  instances : List Instance
  registry : Registry

def Fleet.new (max : Nat) (writes : List WitnessCall) : Fleet := ⟨[], AgentManager.new max, writes⟩

/-- What happened, and how many records it appended to the log. -/
inductive FleetEvent where
  | created (i appended : Nat)
  | creationRefused (reason : LaunchError) (appended : Nat)
  | called (i : Nat) (call : LifecycleCall) (outcome : Except LaunchError (Option Checkpoint))
      (appended : Nat)
  | adapted (i : Nat)
  | logged (appended : Nat)
  | meddled

/-- The records that are in a log since it was another one. -/
def grown (before after : List WitnessCall) : Nat := after.length - before.length

inductive Step (sha256 : List UInt8 → Octets 32) (Kind : HostAdapter → Prop) (here : Fleet) :
    FleetEvent → Fleet → Prop
  | created {id adapter package placement timestampNs own writes} :
      Kind adapter →
      (Instance.create id adapter package placement timestampNs).runFrom here.registry.writes =
        some (.ok own, writes) →
      Step sha256 Kind here (.created here.instances.length (grown here.registry.writes writes))
        ⟨here.instances ++ [own], { here.registry with writes }⟩
  | creationRefused {id adapter package placement timestampNs reason writes} :
      Kind adapter →
      (Instance.create id adapter package placement timestampNs).runFrom here.registry.writes =
        some (.error reason, writes) →
      Step sha256 Kind here (.creationRefused reason (grown here.registry.writes writes))
        { here with registry := { here.registry with writes } }
  | called {i own outcome next} {call : LifecycleCall} :
      here.instances[i]? = some own →
      (call.make sha256).runFrom ⟨own, here.registry⟩ = some (outcome, next) →
      Step sha256 Kind here
        (.called i call outcome (grown here.registry.writes next.registry.writes))
        ⟨here.instances.set i next.own, next.registry⟩
  /-- An adapter changed its own state. -/
  | adapted {i own adapter} :
      here.instances[i]? = some own → Kind adapter →
      Step sha256 Kind here (.adapted i)
        { here with instances := here.instances.set i { own with adapter := adapter } }
  /-- Someone else appended to the log. -/
  | logged {writes} :
      here.registry.writes <+: writes →
      Step sha256 Kind here (.logged (grown here.registry.writes writes))
        { here with registry := { here.registry with writes } }
  /-- Someone else used the registry, or the next calls are handed another one. -/
  | meddled {manager} :
      Step sha256 Kind here .meddled { here with registry := { here.registry with manager } }

end Rvm.Launch
