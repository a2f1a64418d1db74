import Rvm.Foundation.Bytes
import Rvm.Rvf.Declaration
import Rvm.Wasm.Agent

/-!
Owns what a host adapter is given and hands back: the verified package
(`rvm-host/src/package.rs`), placement, isolation and the adapter interface (`adapter.rs`,
`isolation.rs`), and the witness records of the boundary.
-/

namespace Rvm.Host

open Foundation Rvf

def segTypeWasm : Nat := 0x10

structure VerifiedExecutable where
  segmentType : Nat
  moduleLength : Nat
  moduleSha256 : Octets 32
deriving DecidableEq

structure VerifiedPackage where
  identity : Octets 32
  executables : List VerifiedExecutable
  grantedClasses : List CapabilityClass
  deniedClasses : List CapabilityClass
deriving DecidableEq

section

variable (sha256 : List UInt8 → Octets 32)

def VerifiedExecutable.matches (entry : VerifiedExecutable) (module : List UInt8) : Bool :=
  entry.moduleLength == module.length && entry.moduleSha256 == sha256 module

def VerifiedPackage.acceptsWasm (package : VerifiedPackage) (module : List UInt8) : Bool :=
  package.executables.any fun entry =>
    entry.segmentType == segTypeWasm && entry.matches sha256 module

end

inductive HostOs where
  | windows | macOs | linux
deriving DecidableEq, Repr

inductive HostEnvironment where
  | bareMetal (partition : PartitionId)
  | hosted (os : HostOs)
  | portable
deriving DecidableEq, Repr

inductive IsolationClaim where
  | partition | osSandboxWasm | wasmOnly
deriving DecidableEq, Repr

/-- The claim an environment earns, given which operating systems have a
confinement mechanism engaged. -/
def IsolationClaim.derive (environment : HostEnvironment) (engaged : HostOs → Bool) :
    IsolationClaim :=
  match environment with
  | .hosted os => if engaged os then .osSandboxWasm else .wasmOnly
  | .bareMetal _ => .partition
  | .portable => .wasmOnly

def IsolationClaim.witnessCode : IsolationClaim → Nat
  | .partition => 1
  | .osSandboxWasm => 2
  | .wasmOnly => 3

structure Placement where
  partition : PartitionId
  epoch : Nat
  maxMemoryPages : Nat
deriving DecidableEq, Repr

/-- A prepared boundary. -/
structure IsolationContext where
  environment : HostEnvironment
  claim : IsolationClaim
  placement : Placement
  rvfIdentity : Octets 32
  granted : List CapabilityClass
deriving DecidableEq

inductive HostError where
  | unverified | identityUnconfirmed
  | capabilityUnenforceable (unenforced : CapabilityClass)
  | moduleTooLarge
  | moduleRejected (reason : RvmError)
  | spawnFailed (reason : RvmError)
deriving DecidableEq, Repr

inductive HostEvent where
  | capabilityGranted | capabilityDenied | capabilityRefused | isolationPrepared
  | moduleAdmitted | moduleRefused
deriving DecidableEq, Repr

namespace HostEvent

def asU8 (event : HostEvent) : Nat := event.ctorIdx + 1

def actionKind : HostEvent → ActionKind
  | .capabilityGranted => .capabilityGrant
  | .capabilityDenied | .capabilityRefused | .moduleRefused => .proofRejected
  | .isolationPrepared | .moduleAdmitted => .proofVerifiedP2

def proofTier : HostEvent → Nat
  | .capabilityGranted | .capabilityDenied => 1
  | _ => 2

end HostEvent

structure HostWitnessContext where
  rvfIdentity : Octets 32
  partition : PartitionId
  environment : HostEnvironment
  claim : IsolationClaim
  timestampNs : Nat

def IsolationContext.witnessContext (isolation : IsolationContext) (timestampNs : Nat) :
    HostWitnessContext :=
  ⟨isolation.rvfIdentity, isolation.placement.partition, isolation.environment, isolation.claim,
    timestampNs⟩

def noClass : Nat := 0xff

def environmentCode : HostEnvironment → Nat
  | .bareMetal _ => 1
  | .hosted _ => 2
  | .portable => 3

/-- `payload`: the first eight bytes of an identity. -/
def identityPayload (identity : Octets 32) : Vector UInt8 8 :=
  Vector.ofFn fun i => identity.get ⟨i, by omega⟩

/-- `aux`: four bytes and a `u32` detail. -/
def auxWords (first second third fourth detail : Nat) : Vector UInt8 8 :=
  Vector.ofFn fun i => UInt8.ofNat
    ([first, second, third, fourth].getD i.val (detail >>> (8 * (i.val - 4))))

def buildRecord (event : HostEvent) (ctx : HostWitnessContext) (about : Option CapabilityClass)
    (detail : Nat) : WitnessRecord :=
  { WitnessRecord.zeroed with
    actionKind := event.actionKind.asU8
    proofTier := event.proofTier
    flags := event.asU8
    actorPartitionId := ctx.partition.asU32
    targetObjectId := (about.map CapabilityClass.asU8).getD 0
    capabilityHash := fnv1a32 ctx.rvfIdentity.toList
    timestampNs := ctx.timestampNs
    payload := identityPayload ctx.rvfIdentity
    aux := auxWords event.asU8 ((about.map CapabilityClass.asU8).getD noClass)
      ctx.claim.witnessCode (environmentCode ctx.environment) detail }

open Foundation.Call Witness Wasm

/-- An adapter in its present state, as the calls made on it. A call returns, and it is
handed a log that can only be appended to. -/
structure HostAdapter where
  prepare : VerifiedPackage → Placement → Nat → Call HostError (List WitnessCall) IsolationContext
  spawn : IsolationContext → List UInt8 → Nat → Call HostError Registry AgentId
  prepareAppends : ∀ package placement timestampNs writes,
    (prepare package placement timestampNs).Ensures writes
      (fun _ next => writes <+: next) fun _ next => writes <+: next
  spawnAppends : ∀ isolation module timestampNs here,
    (spawn isolation module timestampNs).Ensures here
      (fun _ next => here.writes <+: next.writes) fun _ next => here.writes <+: next.writes

/-- A call of `spawn` registers at most one agent, and none where it is refused, between the
identifier returned and the one registered. -/
def HostAdapter.Registers (Returns : AgentId → AgentId → Prop) (adapter : HostAdapter) : Prop :=
  ∀ isolation module timestampNs here,
    (adapter.spawn isolation module timestampNs).Ensures here
      (fun id next => next.manager = here.manager ∨
        ∃ config registered before after, before.manager = here.manager ∧
          (Registry.spawn config).runFrom before = some (.ok registered, after) ∧
          after.manager = next.manager ∧ Returns id registered)
      fun _ next => next.manager = here.manager

/-- What an implementation must say for itself. -/
structure AdapterTraits where
  maxModuleBytes : Nat
  environment : HostEnvironment
  engaged : HostOs → Bool
  enforces : CapabilityClass → Bool

def maxModuleSize : Nat := 1048576

def u32Capped (value : Nat) : Nat := min value u32Max

namespace AdapterTraits

variable (traits : AdapterTraits)

def isolationClaim : IsolationClaim := .derive traits.environment traits.engaged

def emit (event : HostEvent) (ctx : HostWitnessContext) (about : Option CapabilityClass)
    (detail : Nat) : Call HostError (List WitnessCall) Unit :=
  modify (· ++ [.append (buildRecord event ctx about detail)])

def record (event : HostEvent) (ctx : HostWitnessContext) (detail : Nat) (here : Registry) :
    Registry :=
  { here with writes := here.writes ++ [.append (buildRecord event ctx none detail)] }

def admitStructure (ctx : HostWitnessContext) : Except RvmError Unit → Call HostError Registry Unit
  | .error reason => refuse (.moduleRejected reason) (record .moduleRefused ctx 0)
  | .ok () => pure ()

def prepare (package : VerifiedPackage) (placement : Placement) (timestampNs : Nat) :
    Call HostError (List WitnessCall) IsolationContext := do
  let claim := traits.isolationClaim
  let ctx : HostWitnessContext :=
    ⟨package.identity, placement.partition, traits.environment, claim, timestampNs⟩
  -- Nothing is granted before every class is found enforceable.
  package.grantedClasses.forM fun granted =>
    refuseIf (traits.enforces granted = false) (.capabilityUnenforceable granted)
      (· ++ [.append (buildRecord .capabilityRefused ctx (some granted) 0)])
  package.grantedClasses.forM fun granted => emit .capabilityGranted ctx (some granted) 0
  package.deniedClasses.forM fun denied => emit .capabilityDenied ctx (some denied) 0
  emit .isolationPrepared ctx none claim.witnessCode
  return ⟨traits.environment, claim, placement, package.identity, package.grantedClasses⟩

def spawn (validateModule : List UInt8 → Except RvmError Unit) (isolation : IsolationContext)
    (module : List UInt8) (timestampNs : Nat) : Call HostError Registry AgentId := do
  let ctx := isolation.witnessContext timestampNs
  let limit := min traits.maxModuleBytes maxModuleSize
  refuseIf (module.length > limit) .moduleTooLarge
    (record .moduleRefused ctx (u32Capped module.length))
  admitStructure ctx (validateModule module)
  let badge := fnv1a32 isolation.rvfIdentity.toList
  let config : AgentConfig :=
    ⟨badge, isolation.placement.partition, isolation.placement.maxMemoryPages⟩
  -- A refusal of the registry is not recorded.
  let id ← translate .spawnFailed (Registry.spawn config)
  modify (record .moduleAdmitted ctx (u32Capped module.length))
  return id

variable {traits}

theorem emit_appends {writes here : List WitnessCall} (before : writes <+: here) (event : HostEvent)
    (ctx : HostWitnessContext) (about : Option CapabilityClass) (detail : Nat) :
    (emit event ctx about detail).Ensures here (fun _ next => writes <+: next)
      fun _ next => writes <+: next :=
  before.trans (List.prefix_append _ _)

theorem prepare_appends (package : VerifiedPackage) (placement : Placement) (timestampNs : Nat)
    (writes : List WitnessCall) :
    (traits.prepare package placement timestampNs).Ensures writes
      (fun _ next => writes <+: next) fun _ next => writes <+: next := by
  -- Each loop keeps the log an extension of the one it was handed.
  have loop : ∀ (classes : List CapabilityClass)
      (body : CapabilityClass → Call HostError (List WitnessCall) PUnit) {start},
      (∀ listed here, writes <+: here → (body listed).Ensures here (fun _ next => writes <+: next)
        fun _ next => writes <+: next) →
      writes <+: start →
      (classes.forM body).Ensures start (fun _ next => writes <+: next)
        fun _ next => writes <+: next :=
    fun classes body start round before =>
      @ensures_forM _ _ _ _ _ body classes (fun _ next => writes <+: next) before
        fun _ listed _ here _ => round listed here
  simp only [prepare, ensures_bind, ensures_pure]
  apply (loop _ _ _ List.prefix_rfl).weaken
  · intro _ checked extends₁
    apply (loop _ _ (fun _ _ before => emit_appends before _ _ _ _) extends₁).weaken
    intro _ granted extends₂
    apply (loop _ _ (fun _ _ before => emit_appends before _ _ _ _) extends₂).weaken
    intro _ denied extends₃
    exact emit_appends extends₃ _ _ _ _
  · intro granted here before
    rw [ensures_refuseIf]
    exact ⟨fun _ => before.trans (List.prefix_append _ _), fun _ => before⟩

theorem spawn_appends (validateModule : List UInt8 → Except RvmError Unit)
    (isolation : IsolationContext) (module : List UInt8) (timestampNs : Nat) (here : Registry) :
    (traits.spawn validateModule isolation module timestampNs).Ensures here
      (fun _ next => here.writes <+: next.writes) fun _ next => here.writes <+: next.writes := by
  have validated : ∀ ctx result, (admitStructure ctx result).Ensures here
      (fun _ next => next = here) fun _ next => here.writes <+: next.writes := by
    intro ctx result
    cases result with
    | error reason => exact List.prefix_append _ _
    | ok _ => rfl
  simp only [spawn, ensures_bind, ensures_refuseIf, ensures_translate, ensures_modify, ensures_pure]
  constructor
  · exact fun _ => List.prefix_append _ _
  · intro _
    apply (validated _ _).weaken
    rintro _ _ rfl
    apply (Registry.spawn_appends _ _).weaken
    exact fun _ _ before => before.trans (List.prefix_append _ _)

theorem spawn_registers (validateModule : List UInt8 → Except RvmError Unit)
    (isolation : IsolationContext) (module : List UInt8) (timestampNs : Nat) (here : Registry) :
    (traits.spawn validateModule isolation module timestampNs).Ensures here
      (fun id next => ∃ config after,
        (Registry.spawn config).runFrom here = some (.ok id, after) ∧ after.manager = next.manager)
      fun _ next => next.manager = here.manager := by
  have validated : ∀ ctx result, (admitStructure ctx result).Ensures here
      (fun _ next => here = next) fun _ next => next.manager = here.manager := by
    intro ctx result
    cases result <;> rfl
  simp only [spawn, ensures_bind, ensures_refuseIf, ensures_translate, ensures_modify, ensures_pure]
  constructor
  · exact fun _ => rfl
  · intro _
    apply (validated _ _).weaken
    rintro _ _ rfl
    apply (Registry.spawn_refused _ _).traced.mono
    · exact fun id after ran => ⟨_, after, ran.2, rfl⟩
    · exact fun _ _ refused => refused.1

/-- An adapter that implements what it must and overrides nothing. -/
def provided (traits : AdapterTraits) (validateModule : List UInt8 → Except RvmError Unit) :
    HostAdapter where
  prepare := traits.prepare
  spawn := traits.spawn validateModule
  prepareAppends := prepare_appends
  spawnAppends := spawn_appends validateModule

theorem provided_registers (traits : AdapterTraits)
    (validateModule : List UInt8 → Except RvmError Unit) :
    (traits.provided validateModule).Registers Eq := by
  intro isolation module timestampNs here
  apply (spawn_registers validateModule isolation module timestampNs here).weaken
  rintro id next ⟨config, after, ran, same⟩
  exact Or.inr ⟨config, id, here, after, rfl, ran, same, rfl⟩

end AdapterTraits

end Rvm.Host
