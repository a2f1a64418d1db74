import Rvm.Foundation.Call
import Rvm.Types.Basic
import Rvm.Types.Capability

/-!
Owns the GPU quota of a partition (`rvm-gpu/src/budget.rs`), its GPU context
(`rvm-gpu/src/context.rs`), and what each operation of the context does: a charge of the
budget as a whole, or nothing.
-/

namespace Rvm.Gpu

open Foundation Foundation.Call

structure GpuBudget where
  computeNsMax : Nat
  computeNsUsed : Nat
  memoryBytesMax : Nat
  memoryBytesUsed : Nat
  transferBytesMax : Nat
  transferBytesUsed : Nat
  kernelLaunchesMax : Nat
  kernelLaunchesUsed : Nat
deriving DecidableEq, Repr

abbrev BudgetCall (α : Type) := Call RvmError GpuBudget α

/-- An amount that a limit of 64 bits leaves room for. -/
def Fits (used limit amount : Nat) : Prop := used + amount ≤ limit ∧ used + amount ≤ u64Max

instance {used limit amount : Nat} : Decidable (Fits used limit amount) :=
  inferInstanceAs (Decidable (_ ∧ _))

namespace GpuBudget

/-- The budget with its limits; every usage counter starts at zero. -/
def new (computeNsMax memoryBytesMax transferBytesMax kernelLaunchesMax : Nat) : GpuBudget where
  computeNsMax := computeNsMax
  computeNsUsed := 0
  memoryBytesMax := memoryBytesMax
  memoryBytesUsed := 0
  transferBytesMax := transferBytesMax
  transferBytesUsed := 0
  kernelLaunchesMax := kernelLaunchesMax
  kernelLaunchesUsed := 0

def newTotal (used limit amount : Nat) : BudgetCall Nat := do
  let total ← orThrow (checkedAdd64 used amount) .resourceLimitExceeded
  throwIf (limit < total) .resourceLimitExceeded
  return total

/-- A request for nothing passes, whatever the counter shows. -/
def check (used limit : GpuBudget → Nat) (requested : Nat) : BudgetCall PUnit := do
  if requested = 0 then
    return ⟨⟩
  let here ← get
  let _ ← newTotal (used here) (limit here) requested

def checkCompute (requestedNs : Nat) : BudgetCall PUnit :=
  check computeNsUsed computeNsMax requestedNs

def checkMemory (requestedBytes : Nat) : BudgetCall PUnit :=
  check memoryBytesUsed memoryBytesMax requestedBytes

def checkTransfer (requestedBytes : Nat) : BudgetCall PUnit :=
  check transferBytesUsed transferBytesMax requestedBytes

def checkLaunch : BudgetCall PUnit := do
  let here ← get
  throwIf (here.kernelLaunchesMax ≤ here.kernelLaunchesUsed) .resourceLimitExceeded

def record (used limit : GpuBudget → Nat) (put : GpuBudget → Nat → GpuBudget) (amount : Nat) :
    BudgetCall PUnit := do
  let here ← get
  let total ← newTotal (used here) (limit here) amount
  set (put here total)

def recordCompute (elapsedNs : Nat) : BudgetCall PUnit :=
  record computeNsUsed computeNsMax (fun here total => { here with computeNsUsed := total })
    elapsedNs

def recordMemory (allocatedBytes : Nat) : BudgetCall PUnit :=
  record memoryBytesUsed memoryBytesMax (fun here total => { here with memoryBytesUsed := total })
    allocatedBytes

def recordTransfer (transferredBytes : Nat) : BudgetCall PUnit :=
  record transferBytesUsed transferBytesMax
    (fun here total => { here with transferBytesUsed := total }) transferredBytes

/-- The counter is below a limit of 32 bits where it is raised, so it does not
wrap. -/
def recordLaunch : BudgetCall PUnit := do
  let here ← get
  throwIf (here.kernelLaunchesMax ≤ here.kernelLaunchesUsed) .resourceLimitExceeded
  set { here with kernelLaunchesUsed := here.kernelLaunchesUsed + 1 }

/-- The epoch's counters start again; memory is held across epochs. -/
def resetEpoch (here : GpuBudget) : GpuBudget :=
  { here with computeNsUsed := 0, transferBytesUsed := 0, kernelLaunchesUsed := 0 }

variable {here : GpuBudget} {amount : Nat}

theorem newTotal_spec {used limit : Nat} :
    (newTotal used limit amount).Ensures here
      (fun total next => Fits used limit amount ∧ total = used + amount ∧ next = here)
      fun reason next => ¬Fits used limit amount ∧ reason = .resourceLimitExceeded ∧
        next = here := by
  unfold newTotal
  rw [ensures_bind, ensures_orThrow]
  constructor
  · intro total added
    obtain rfl := checkedAdd64_eq added
    rw [ensures_bind, ensures_throwIf]
    exact ⟨fun beyond => ⟨fun fits => Nat.not_le.mpr beyond fits.1, rfl, rfl⟩,
      fun within => ⟨⟨Nat.not_lt.mp within, le_of_checkedAdd64 added⟩, rfl, rfl⟩⟩
  · intro overflow
    refine ⟨fun fits => ?_, rfl, rfl⟩
    rw [checkedAdd64_of_le fits.2] at overflow
    cases overflow

theorem check_spec {used limit : GpuBudget → Nat} (within : used here ≤ limit here)
    (small : limit here ≤ u64Max) :
    (check used limit amount).Ensures here
      (fun _ next => Fits (used here) (limit here) amount ∧ next = here)
      fun reason next => ¬Fits (used here) (limit here) amount ∧
        reason = .resourceLimitExceeded ∧ next = here := by
  unfold check
  rw [ensures_ite]
  constructor
  · rintro rfl
    exact ⟨⟨within, Nat.le_trans within small⟩, rfl⟩
  · intro _
    rw [ensures_bind, ensures_get, ensures_bind]
    apply newTotal_spec.weaken
    rintro _ _ ⟨fits, -, same⟩
    exact ⟨fits, same⟩

theorem record_spec {used limit : GpuBudget → Nat} {put : GpuBudget → Nat → GpuBudget} :
    (record used limit put amount).Ensures here
      (fun _ next => Fits (used here) (limit here) amount ∧ next = put here (used here + amount))
      fun reason next => ¬Fits (used here) (limit here) amount ∧
        reason = .resourceLimitExceeded ∧ next = here := by
  unfold record
  rw [ensures_bind, ensures_get, ensures_bind]
  apply newTotal_spec.weaken
  rintro _ _ ⟨fits, rfl, -⟩
  exact ⟨fits, rfl⟩

theorem recordLaunch_spec :
    recordLaunch.Ensures here
      (fun _ next => here.kernelLaunchesUsed < here.kernelLaunchesMax ∧
        next = { here with kernelLaunchesUsed := here.kernelLaunchesUsed + 1 })
      fun reason next => ¬here.kernelLaunchesUsed < here.kernelLaunchesMax ∧
        reason = .resourceLimitExceeded ∧ next = here := by
  unfold recordLaunch
  rw [ensures_bind, ensures_get, ensures_bind, ensures_throwIf]
  exact ⟨fun full => ⟨Nat.not_lt.mpr full, rfl, rfl⟩, fun room => ⟨Nat.not_le.mp room, rfl⟩⟩

end GpuBudget

inductive GpuStatus where
  | unavailable | initializing | ready | error
deriving DecidableEq, Repr

structure GpuContext where
  partitionId : PartitionId
  deviceId : Nat
  status : GpuStatus
  budget : GpuBudget
  activeKernels : Nat
  allocatedMemory : Nat
  queueDepth : Nat
deriving DecidableEq, Repr

abbrev ContextCall := Call RvmError GpuContext PUnit

namespace GpuContext

def new (partitionId : PartitionId) (deviceId : Nat) (budget : GpuBudget) : GpuContext where
  partitionId := partitionId
  deviceId := deviceId
  status := .initializing
  budget := budget
  activeKernels := 0
  allocatedMemory := 0
  queueDepth := 0

def isReady (here : GpuContext) : Bool := here.status = .ready

def ready : ContextCall := do
  let here ← get
  throwIf (here.isReady = false) .invalidPartitionState

def onBudget (call : BudgetCall PUnit) : ContextCall :=
  onPart budget (fun here budget => { here with budget := budget }) call

def kernelStarted (here : GpuContext) : GpuContext :=
  { here with activeKernels := min (here.activeKernels + 1) u32Max }

def memoryHeld (bytes : Nat) (here : GpuContext) : GpuContext :=
  { here with allocatedMemory := saturatingAdd64 here.allocatedMemory bytes }

def checkBudget (computeNs transferBytes : Nat) : ContextCall := do
  ready
  onBudget (GpuBudget.checkCompute computeNs)
  onBudget (GpuBudget.checkTransfer transferBytes)
  onBudget GpuBudget.checkLaunch

/-- A refusal of a later dimension takes the earlier charges back. -/
def tryLaunch (computeNs transferBytes : Nat) : ContextCall := do
  ready
  let here ← get
  let snapCompute := here.budget.computeNsUsed
  let snapTransfer := here.budget.transferBytesUsed
  onBudget (GpuBudget.recordCompute computeNs)
  orUndo (onBudget (GpuBudget.recordTransfer transferBytes)) fun here =>
    { here with budget := { here.budget with computeNsUsed := snapCompute } }
  orUndo (onBudget GpuBudget.recordLaunch) fun here =>
    { here with budget :=
      { here.budget with computeNsUsed := snapCompute, transferBytesUsed := snapTransfer } }
  modify kernelStarted

def tryTransfer (bytes : Nat) : ContextCall := do
  ready
  onBudget (GpuBudget.recordTransfer bytes)

def tryAlloc (bytes : Nat) : ContextCall := do
  ready
  onBudget (GpuBudget.recordMemory bytes)
  modify (memoryHeld bytes)

/-- Nothing takes the compute charge back where the launch is refused. -/
def recordKernelLaunch (computeNs : Nat) : ContextCall := do
  ready
  onBudget (GpuBudget.recordCompute computeNs)
  onBudget GpuBudget.recordLaunch
  modify kernelStarted

def recordTransfer (transferredBytes : Nat) : ContextCall := do
  ready
  onBudget (GpuBudget.recordTransfer transferredBytes)

def recordKernelComplete : ContextCall :=
  modify fun here => { here with activeKernels := here.activeKernels - 1 }

def recordMemoryAlloc (bytes : Nat) : ContextCall := do
  ready
  onBudget (GpuBudget.recordMemory bytes)
  modify (memoryHeld bytes)

/-- Both counters saturate at zero, so the free gives back what is held at most. -/
def recordMemoryFree (bytes : Nat) : ContextCall := do
  ready
  modify fun here => { here with
    allocatedMemory := here.allocatedMemory - bytes
    budget := { here.budget with memoryBytesUsed := here.budget.memoryBytesUsed - bytes } }

def resetEpoch : ContextCall :=
  modify fun here => { here with budget := here.budget.resetEpoch }

variable {here : GpuContext}

/-- Usage within the limits, and one figure for the memory held. -/
structure Sound (here : GpuContext) : Prop where
  compute : here.budget.computeNsUsed ≤ here.budget.computeNsMax
  memory : here.budget.memoryBytesUsed ≤ here.budget.memoryBytesMax
  transfer : here.budget.transferBytesUsed ≤ here.budget.transferBytesMax
  launches : here.budget.kernelLaunchesUsed ≤ here.budget.kernelLaunchesMax
  allocated : here.allocatedMemory = here.budget.memoryBytesUsed

def charged (computeNs transferBytes launches : Nat) (here : GpuContext) : GpuContext :=
  { here with budget := { here.budget with
      computeNsUsed := here.budget.computeNsUsed + computeNs
      transferBytesUsed := here.budget.transferBytesUsed + transferBytes
      kernelLaunchesUsed := here.budget.kernelLaunchesUsed + launches } }

def holding (bytes : Nat) (here : GpuContext) : GpuContext :=
  { here with
      allocatedMemory := here.allocatedMemory + bytes
      budget := { here.budget with memoryBytesUsed := here.budget.memoryBytesUsed + bytes } }

/-- The context after memory is freed; both counters saturate at zero. -/
def releasing (bytes : Nat) (here : GpuContext) : GpuContext :=
  { here with
      allocatedMemory := here.allocatedMemory - bytes
      budget := { here.budget with memoryBytesUsed := here.budget.memoryBytesUsed - bytes } }

theorem ready_spec :
    ready.Ensures here (fun _ next => here.isReady = true ∧ next = here)
      fun _ next => here.isReady = false ∧ next = here := by
  unfold ready
  rw [ensures_bind, ensures_get, ensures_throwIf]
  exact ⟨fun unready => ⟨unready, rfl⟩, fun isReady => ⟨eq_true_of_ne_false isReady, rfl⟩⟩

theorem whenReady {body : ContextCall} {Returned : PUnit → GpuContext → Prop}
    {Refused : RvmError → GpuContext → Prop}
    (unready : here.isReady = false → ∀ reason, Refused reason here)
    (spec : here.isReady = true → body.Ensures here Returned Refused) :
    (do
      ready
      body).Ensures here Returned Refused := by
  rw [ensures_bind]
  apply ready_spec.mono
  · rintro _ _ ⟨isReady, rfl⟩
    exact spec isReady
  · rintro reason _ ⟨notReady, rfl⟩
    exact unready notReady reason

theorem recordCompute_spec {computeNs : Nat} :
    (onBudget (GpuBudget.recordCompute computeNs)).Ensures here
      (fun _ next => Fits here.budget.computeNsUsed here.budget.computeNsMax computeNs ∧
        next = here.charged computeNs 0 0)
      fun _ next => ¬Fits here.budget.computeNsUsed here.budget.computeNsMax computeNs ∧
        next = here := by
  rw [onBudget, ensures_onPart]
  apply GpuBudget.record_spec.mono
  · rintro _ _ ⟨fits, rfl⟩
    exact ⟨fits, rfl⟩
  · rintro _ _ ⟨exceeds, -, rfl⟩
    exact ⟨exceeds, rfl⟩

theorem recordTransfer_spec {bytes : Nat} :
    (onBudget (GpuBudget.recordTransfer bytes)).Ensures here
      (fun _ next => Fits here.budget.transferBytesUsed here.budget.transferBytesMax bytes ∧
        next = here.charged 0 bytes 0)
      fun _ next => ¬Fits here.budget.transferBytesUsed here.budget.transferBytesMax bytes ∧
        next = here := by
  rw [onBudget, ensures_onPart]
  apply GpuBudget.record_spec.mono
  · rintro _ _ ⟨fits, rfl⟩
    exact ⟨fits, rfl⟩
  · rintro _ _ ⟨exceeds, -, rfl⟩
    exact ⟨exceeds, rfl⟩

theorem recordLaunch_spec :
    (onBudget GpuBudget.recordLaunch).Ensures here
      (fun _ next => here.budget.kernelLaunchesUsed < here.budget.kernelLaunchesMax ∧
        next = here.charged 0 0 1)
      fun _ next => ¬here.budget.kernelLaunchesUsed < here.budget.kernelLaunchesMax ∧
        next = here := by
  rw [onBudget, ensures_onPart]
  apply GpuBudget.recordLaunch_spec.mono
  · rintro _ _ ⟨room, rfl⟩
    exact ⟨room, rfl⟩
  · rintro _ _ ⟨full, -, rfl⟩
    exact ⟨full, rfl⟩

theorem recordMemory_spec {bytes : Nat} (sound : here.Sound) :
    (do
      onBudget (GpuBudget.recordMemory bytes)
      modify (memoryHeld bytes)).Ensures here
      (fun _ next => Fits here.budget.memoryBytesUsed here.budget.memoryBytesMax bytes ∧
        next = here.holding bytes)
      fun _ next => ¬Fits here.budget.memoryBytesUsed here.budget.memoryBytesMax bytes ∧
        next = here := by
  rw [ensures_bind, onBudget, ensures_onPart]
  apply GpuBudget.record_spec.mono
  · rintro _ _ ⟨fits, rfl⟩
    refine ⟨fits, ?_⟩
    show { here with allocatedMemory := min (here.allocatedMemory + bytes) u64Max, budget := _ } = _
    rw [Nat.min_eq_left (sound.allocated ▸ fits.2)]
    rfl
  · rintro _ _ ⟨exceeds, -, rfl⟩
    exact ⟨exceeds, rfl⟩

structure Admits (computeNs transferBytes : Nat) (here : GpuContext) : Prop where
  ready : here.isReady = true
  compute : Fits here.budget.computeNsUsed here.budget.computeNsMax computeNs
  transfer : Fits here.budget.transferBytesUsed here.budget.transferBytesMax transferBytes
  launches : here.budget.kernelLaunchesUsed < here.budget.kernelLaunchesMax

theorem tryLaunch_spec {computeNs transferBytes : Nat} :
    (tryLaunch computeNs transferBytes).Ensures here
      (fun _ next => Admits computeNs transferBytes here ∧
        next = (here.charged computeNs transferBytes 1).kernelStarted)
      fun _ next => ¬Admits computeNs transferBytes here ∧ next = here := by
  refine whenReady (fun unready _ => ?_) fun isReady => ?_
  · exact ⟨fun admits => Bool.false_ne_true (unready.symm.trans admits.ready), rfl⟩
  · rw [ensures_bind, ensures_get, ensures_bind]
    apply recordCompute_spec.mono
    · rintro _ _ ⟨compute, rfl⟩
      rw [ensures_bind, ensures_orUndo]
      apply recordTransfer_spec.mono
      · rintro _ _ ⟨transfer, rfl⟩
        rw [ensures_bind, ensures_orUndo]
        apply recordLaunch_spec.mono
        · rintro _ _ ⟨launches, rfl⟩
          exact ⟨⟨isReady, compute, transfer, launches⟩, rfl⟩
        · rintro _ _ ⟨full, rfl⟩
          exact ⟨fun admits => full admits.launches, rfl⟩
      · rintro _ _ ⟨exceeds, rfl⟩
        exact ⟨fun admits => exceeds admits.transfer, rfl⟩
    · rintro _ _ ⟨exceeds, rfl⟩
      exact ⟨fun admits => exceeds admits.compute, rfl⟩

theorem check_spec {used limit : GpuBudget → Nat} {requested : Nat}
    (within : used here.budget ≤ limit here.budget) (small : limit here.budget ≤ u64Max) :
    (onBudget (GpuBudget.check used limit requested)).Ensures here
      (fun _ next => Fits (used here.budget) (limit here.budget) requested ∧ next = here)
      fun _ next => ¬Fits (used here.budget) (limit here.budget) requested ∧ next = here := by
  rw [onBudget, ensures_onPart]
  apply (GpuBudget.check_spec within small).mono
  · rintro _ _ ⟨fits, rfl⟩
    exact ⟨fits, rfl⟩
  · rintro _ _ ⟨exceeds, -, rfl⟩
    exact ⟨exceeds, rfl⟩

theorem checkBudget_spec {computeNs transferBytes : Nat} (sound : here.Sound)
    (compute : here.budget.computeNsMax ≤ u64Max)
    (transfer : here.budget.transferBytesMax ≤ u64Max) :
    (checkBudget computeNs transferBytes).Ensures here
      (fun _ next => Admits computeNs transferBytes here ∧ next = here)
      fun _ next => ¬Admits computeNs transferBytes here ∧ next = here := by
  refine whenReady (fun unready _ => ?_) fun isReady => ?_
  · exact ⟨fun admits => Bool.false_ne_true (unready.symm.trans admits.ready), rfl⟩
  · rw [ensures_bind]
    apply (check_spec sound.compute compute).mono
    · rintro _ _ ⟨compute, rfl⟩
      rw [ensures_bind]
      apply (check_spec sound.transfer transfer).mono
      · rintro _ _ ⟨transfer, rfl⟩
        rw [onBudget, ensures_onPart, GpuBudget.checkLaunch, ensures_bind, ensures_get,
          ensures_throwIf]
        exact ⟨fun full => ⟨fun admits => Nat.not_le.mpr admits.launches full, rfl⟩,
          fun room => ⟨⟨isReady, compute, transfer, Nat.not_le.mp room⟩, rfl⟩⟩
      · rintro _ _ ⟨exceeds, rfl⟩
        exact ⟨fun admits => exceeds admits.transfer, rfl⟩
    · rintro _ _ ⟨exceeds, rfl⟩
      exact ⟨fun admits => exceeds admits.compute, rfl⟩

def Strands (computeNs : Nat) (here : GpuContext) : Prop :=
  here.isReady = true ∧ 0 < computeNs ∧
    Fits here.budget.computeNsUsed here.budget.computeNsMax computeNs ∧
    here.budget.kernelLaunchesMax ≤ here.budget.kernelLaunchesUsed

theorem recordKernelLaunch_spec {computeNs : Nat} :
    (recordKernelLaunch computeNs).Ensures here
      (fun _ next => Fits here.budget.computeNsUsed here.budget.computeNsMax computeNs ∧
        here.budget.kernelLaunchesUsed < here.budget.kernelLaunchesMax ∧
        next = (here.charged computeNs 0 1).kernelStarted)
      fun _ next => Strands computeNs here ∧ next = here.charged computeNs 0 0 ∨
        ¬Strands computeNs here ∧ next = here := by
  refine whenReady (fun unready _ => ?_) fun isReady => ?_
  · exact .inr ⟨fun strands => Bool.false_ne_true (unready.symm.trans strands.1), rfl⟩
  · rw [ensures_bind]
    apply recordCompute_spec.mono
    · rintro _ _ ⟨compute, rfl⟩
      rw [ensures_bind]
      apply recordLaunch_spec.mono
      · rintro _ _ ⟨launches, rfl⟩
        exact ⟨compute, launches, rfl⟩
      · rintro _ _ ⟨full, rfl⟩
        rcases Nat.eq_zero_or_pos computeNs with rfl | some
        · exact .inr ⟨fun strands => Nat.lt_irrefl 0 strands.2.1, rfl⟩
        · exact .inl ⟨⟨isReady, some, compute, Nat.not_lt.mp full⟩, rfl⟩
    · rintro _ _ ⟨exceeds, rfl⟩
      exact .inr ⟨fun strands => exceeds strands.2.2.1, rfl⟩

end GpuContext

end Rvm.Gpu
