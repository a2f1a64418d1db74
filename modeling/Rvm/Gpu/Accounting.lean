import Mathlib.Algebra.BigOperators.Group.List.Basic
import Mathlib.Algebra.GroupWithZero.Nat
import Rvm.Foundation.Run
import Rvm.Gpu.Context

/-!
Owns the accounts of a GPU context over whole runs: its limits, the charges of an
epoch, the memory held, and what a refused operation leaves behind.
-/

namespace Rvm.Gpu

open Foundation Foundation.Call GpuContext

inductive GpuOp where
  | tryLaunch (computeNs transferBytes : Nat)
  | tryTransfer (bytes : Nat)
  | tryAlloc (bytes : Nat)
  | recordKernelLaunch (computeNs : Nat)
  | recordTransfer (transferredBytes : Nat)
  | recordMemoryAlloc (bytes : Nat)
  | recordMemoryFree (bytes : Nat)
  | recordKernelComplete
  | resetEpoch
deriving DecidableEq, Repr

/-- What the work of an epoch uses. -/
structure Charge where
  computeNs : Nat
  transferBytes : Nat
  launches : Nat
deriving DecidableEq, Repr

namespace GpuOp

def call : GpuOp → ContextCall
  | .tryLaunch computeNs transferBytes => GpuContext.tryLaunch computeNs transferBytes
  | .tryTransfer bytes => GpuContext.tryTransfer bytes
  | .tryAlloc bytes => GpuContext.tryAlloc bytes
  | .recordKernelLaunch computeNs => GpuContext.recordKernelLaunch computeNs
  | .recordTransfer transferredBytes => GpuContext.recordTransfer transferredBytes
  | .recordMemoryAlloc bytes => GpuContext.recordMemoryAlloc bytes
  | .recordMemoryFree bytes => GpuContext.recordMemoryFree bytes
  | .recordKernelComplete => GpuContext.recordKernelComplete
  | .resetEpoch => GpuContext.resetEpoch

/-- What the operation asks of the epoch's budget. -/
def charge : GpuOp → Charge
  | .tryLaunch computeNs transferBytes => ⟨computeNs, transferBytes, 1⟩
  | .tryTransfer bytes | .recordTransfer bytes => ⟨0, bytes, 0⟩
  | .recordKernelLaunch computeNs => ⟨computeNs, 0, 1⟩
  | _ => ⟨0, 0, 0⟩

def allocates : GpuOp → Nat
  | .tryAlloc bytes | .recordMemoryAlloc bytes => bytes
  | _ => 0

def frees : GpuOp → Nat
  | .recordMemoryFree bytes => bytes
  | _ => 0

def applied (here : GpuContext) : GpuOp → GpuContext
  | .tryLaunch computeNs transferBytes => (here.charged computeNs transferBytes 1).kernelStarted
  | .tryTransfer bytes | .recordTransfer bytes => here.charged 0 bytes 0
  | .tryAlloc bytes | .recordMemoryAlloc bytes => here.holding bytes
  | .recordKernelLaunch computeNs => (here.charged computeNs 0 1).kernelStarted
  | .recordMemoryFree bytes => here.releasing bytes
  | .recordKernelComplete => { here with activeKernels := here.activeKernels - 1 }
  | .resetEpoch => { here with budget := here.budget.resetEpoch }

/-- The operation is refused after it is charged. -/
def Strands (here : GpuContext) : GpuOp → Prop
  | .recordKernelLaunch computeNs => GpuContext.Strands computeNs here
  | _ => False

/-- The operation gives back more memory than is held. -/
def OverFrees (here : GpuContext) : GpuOp → Prop
  | .recordMemoryFree bytes => here.isReady = true ∧ here.allocatedMemory < bytes
  | _ => False

variable {here : GpuContext}

/-- What a served operation leaves. -/
structure Served (op : GpuOp) (here next : GpuContext) : Prop where
  applied : next = op.applied here
  sound : next.Sound
  covered : ¬op.OverFrees here → op.frees ≤ here.allocatedMemory

/-- What a refused operation leaves. -/
def Refused (op : GpuOp) (here next : GpuContext) : Prop :=
  op.Strands here ∧ next = here.charged op.charge.computeNs 0 0 ∨ ¬op.Strands here ∧ next = here

variable {bytes : Nat}

theorem transfer_spec (op : GpuOp) (sound : here.Sound)
    (charges : op.applied here = here.charged 0 bytes 0) (none : op.frees = 0)
    (never : ¬op.Strands here) :
    (GpuContext.recordTransfer bytes).Ensures here (fun _ next => op.Served here next)
      fun _ next => op.Refused here next := by
  refine whenReady (fun _ _ => .inr ⟨never, rfl⟩) fun _ => ?_
  apply recordTransfer_spec.mono
  · rintro _ _ ⟨fits, rfl⟩
    exact ⟨charges.symm, { sound with transfer := fits.1 }, fun _ => none ▸ Nat.zero_le _⟩
  · rintro _ _ ⟨-, rfl⟩
    exact .inr ⟨never, rfl⟩

theorem alloc_spec (op : GpuOp) (sound : here.Sound) (holds : op.applied here = here.holding bytes)
    (none : op.frees = 0) (never : ¬op.Strands here) :
    (GpuContext.recordMemoryAlloc bytes).Ensures here (fun _ next => op.Served here next)
      fun _ next => op.Refused here next := by
  refine whenReady (fun _ _ => .inr ⟨never, rfl⟩) fun _ => ?_
  apply (recordMemory_spec sound).mono
  · rintro _ _ ⟨fits, rfl⟩
    refine ⟨holds.symm, { sound with memory := fits.1, allocated := ?_ },
      fun _ => none ▸ Nat.zero_le _⟩
    exact congrArg (· + bytes) sound.allocated
  · rintro _ _ ⟨-, rfl⟩
    exact .inr ⟨never, rfl⟩

theorem free_spec (sound : here.Sound) :
    (GpuContext.recordMemoryFree bytes).Ensures here
      (fun _ next => (GpuOp.recordMemoryFree bytes).Served here next)
      fun _ next => (GpuOp.recordMemoryFree bytes).Refused here next := by
  refine whenReady (fun _ _ => .inr ⟨id, rfl⟩) fun isReady => ?_
  refine ⟨rfl, { sound with memory := ?_, allocated := ?_ }, fun covered => ?_⟩
  · exact Nat.le_trans (Nat.sub_le _ _) sound.memory
  · exact congrArg (· - bytes) sound.allocated
  · exact Nat.not_lt.mp fun beyond => covered ⟨isReady, beyond⟩

theorem kernelLaunch_spec {computeNs : Nat} (sound : here.Sound) :
    (GpuContext.recordKernelLaunch computeNs).Ensures here
      (fun _ next => (GpuOp.recordKernelLaunch computeNs).Served here next)
      fun _ next => (GpuOp.recordKernelLaunch computeNs).Refused here next := by
  apply recordKernelLaunch_spec.mono
  · rintro _ _ ⟨compute, launches, rfl⟩
    exact ⟨rfl, { sound with compute := compute.1, launches := launches }, fun _ => Nat.zero_le _⟩
  · rintro _ _ (⟨strands, rfl⟩ | ⟨covered, rfl⟩)
    · exact .inl ⟨strands, rfl⟩
    · exact .inr ⟨covered, rfl⟩

/-- Every operation is served, or refused as the source's rollback intends, except
for a launch that strands its compute charge. -/
theorem call_spec (op : GpuOp) (sound : here.Sound) :
    op.call.Ensures here (fun _ next => op.Served here next)
      fun _ next => op.Refused here next := by
  cases op with
  | tryLaunch computeNs transferBytes =>
    apply tryLaunch_spec.mono
    · rintro _ _ ⟨admits, rfl⟩
      refine ⟨rfl, ?_, fun _ => Nat.zero_le _⟩
      exact { sound with
        compute := admits.compute.1, transfer := admits.transfer.1, launches := admits.launches }
    · rintro _ _ ⟨-, rfl⟩
      exact .inr ⟨id, rfl⟩
  | tryTransfer bytes => exact transfer_spec _ sound rfl rfl id
  | tryAlloc bytes => exact alloc_spec _ sound rfl rfl id
  | recordKernelLaunch computeNs => exact kernelLaunch_spec sound
  | recordTransfer transferredBytes => exact transfer_spec _ sound rfl rfl id
  | recordMemoryAlloc bytes => exact alloc_spec _ sound rfl rfl id
  | recordMemoryFree bytes => exact free_spec sound
  | recordKernelComplete =>
    exact ⟨rfl, { sound with }, fun _ => Nat.zero_le _⟩
  | resetEpoch =>
    refine ⟨rfl, ?_, fun _ => Nat.zero_le _⟩
    exact { sound with
      compute := Nat.zero_le _, transfer := Nat.zero_le _, launches := Nat.zero_le _ }

end GpuOp

inductive GpuLabel where
  | called (op : GpuOp) (outcome : Except RvmError PUnit)
  | statusSet (status : GpuStatus)

/-- A call of an operation, or a change of the status by the context's owner. -/
inductive Step : GpuContext → GpuLabel → GpuContext → Prop
  | called {here next : GpuContext} {op : GpuOp} {outcome : Except RvmError PUnit} :
      op.call.runFrom here = some (outcome, next) → Step here (.called op outcome) next
  | statusSet {here : GpuContext} {status : GpuStatus} :
      Step here (.statusSet status) { here with status := status }

namespace GpuLabel

def epoch (charges : List Charge) : GpuLabel → List Charge
  | .called .resetEpoch (.ok _) => []
  | .called op (.ok _) => charges ++ [op.charge]
  | _ => charges

def succeeded (amount : GpuOp → Nat) : GpuLabel → Nat
  | .called op (.ok _) => amount op
  | _ => 0

/-- The memory held after one more call; a free gives back what is held at most. -/
def heldAfter (held : Nat) (label : GpuLabel) : Nat :=
  held + label.succeeded GpuOp.allocates - label.succeeded GpuOp.frees

end GpuLabel

/-- The charges of the successful calls since the last reset. -/
def epochCharges (labels : List GpuLabel) : List Charge := labels.foldl GpuLabel.epoch []

def Charge.total (charges : List Charge) : Charge where
  computeNs := (charges.map Charge.computeNs).sum
  transferBytes := (charges.map Charge.transferBytes).sum
  launches := (charges.map Charge.launches).sum

def sumSucceeded (amount : GpuOp → Nat) (labels : List GpuLabel) : Nat :=
  (labels.map (GpuLabel.succeeded amount)).sum

def heldBytes (labels : List GpuLabel) : Nat := labels.foldl GpuLabel.heldAfter 0

/-- What the budget shows for the current epoch. -/
def GpuContext.usage (here : GpuContext) : Charge where
  computeNs := here.budget.computeNsUsed
  transferBytes := here.budget.transferBytesUsed
  launches := here.budget.kernelLaunchesUsed

/-- A context that nothing was charged to yet. -/
structure GpuContext.Unused (here : GpuContext) : Prop where
  usage : here.usage = ⟨0, 0, 0⟩
  memory : here.budget.memoryBytesUsed = 0
  allocated : here.allocatedMemory = 0

/-- The call neither strands a charge nor gives back more memory than is held. -/
def Covered (here : GpuContext) : GpuLabel → Prop
  | .called op _ => ¬op.Strands here ∧ ¬op.OverFrees here
  | .statusSet _ => True

variable {context here next final : GpuContext} {labels : List GpuLabel} {label : GpuLabel}
  {op : GpuOp}

theorem served_of_step {value : PUnit} (sound : here.Sound)
    (step : Step here (.called op (.ok value)) next) : op.Served here next := by
  cases step with
  | called ran =>
    have spec := op.call_spec sound
    rw [Ensures, ran] at spec
    exact spec

theorem refused_of_step {reason : RvmError} (sound : here.Sound)
    (step : Step here (.called op (.error reason)) next) : op.Refused here next := by
  cases step with
  | called ran =>
    have spec := op.call_spec sound
    rw [Ensures, ran] at spec
    exact spec

theorem step_total (op : GpuOp) (sound : here.Sound) :
    ∃ outcome next, Step here (.called op outcome) next := by
  rcases (op.call_spec sound).outcome with ⟨value, next, ran, -⟩ | ⟨reason, next, ran, -⟩
  · exact ⟨_, next, .called ran⟩
  · exact ⟨_, next, .called ran⟩

theorem sound_of_unused (unused : context.Unused) : context.Sound where
  compute := (congrArg Charge.computeNs unused.usage).trans_le (Nat.zero_le _)
  memory := unused.memory ▸ Nat.zero_le _
  transfer := (congrArg Charge.transferBytes unused.usage).trans_le (Nat.zero_le _)
  launches := (congrArg Charge.launches unused.usage).trans_le (Nat.zero_le _)
  allocated := unused.allocated.trans unused.memory.symm

theorem sound_stranded (sound : here.Sound) (strands : op.Strands here) :
    (here.charged op.charge.computeNs 0 0).Sound := by
  cases op with
  | recordKernelLaunch computeNs => exact { sound with compute := strands.2.2.1.1 }
  | _ => exact strands.elim

theorem stranded_ne (strands : op.Strands here) : here.charged op.charge.computeNs 0 0 ≠ here := by
  intro same
  have raised : here.budget.computeNsUsed + op.charge.computeNs = here.budget.computeNsUsed :=
    congrArg (fun context => context.budget.computeNsUsed) same
  cases op with
  | recordKernelLaunch computeNs => exact Nat.ne_of_gt strands.2.1 (Nat.add_eq_left.mp raised)
  | _ => exact strands.elim

theorem sound_step (sound : here.Sound) (step : Step here label next) : next.Sound := by
  cases label with
  | called op outcome =>
    cases outcome with
    | ok value => exact (served_of_step sound step).sound
    | error reason =>
      rcases refused_of_step sound step with ⟨strands, rfl⟩ | ⟨-, rfl⟩
      · exact sound_stranded sound strands
      · exact sound
  | statusSet status =>
    cases step
    exact { sound with }

theorem sound_of_run (unused : context.Unused) (run : Run Step context labels final) :
    final.Sound :=
  run.stateInvariant (sound_of_unused unused) fun _ _ _ => sound_step

theorem unchanged_iff {reason : RvmError} (sound : here.Sound)
    (step : Step here (.called op (.error reason)) next) : next = here ↔ ¬op.Strands here := by
  rcases refused_of_step sound step with ⟨strands, rfl⟩ | ⟨covered, same⟩
  · exact ⟨fun same => (stranded_ne strands same).elim, fun covered => (covered strands).elim⟩
  · exact ⟨fun _ => covered, fun _ => same⟩

theorem applied_allocated (op : GpuOp) :
    (op.applied here).allocatedMemory = here.allocatedMemory + op.allocates - op.frees := by
  cases op <;> rfl

theorem held_step (sound : here.Sound) (step : Step here label next) :
    next.allocatedMemory = label.heldAfter here.allocatedMemory := by
  cases label with
  | called op outcome =>
    cases outcome with
    | ok value =>
      rw [(served_of_step sound step).applied, applied_allocated]
      rfl
    | error reason =>
      rcases refused_of_step sound step with ⟨-, rfl⟩ | ⟨-, rfl⟩ <;> rfl
  | statusSet status =>
    cases step
    rfl

theorem held_of_run (unused : context.Unused) (run : Run Step context labels final) :
    final.allocatedMemory = heldBytes labels := by
  induction run with
  | nil => exact unused.allocated
  | snoc before step ih =>
    rw [heldBytes, List.foldl_append, held_step (sound_of_run unused before) step, ih]
    rfl

theorem applied_usage (op : GpuOp) (resets : op ≠ .resetEpoch) :
    (op.applied here).usage = ⟨here.usage.computeNs + op.charge.computeNs,
      here.usage.transferBytes + op.charge.transferBytes,
      here.usage.launches + op.charge.launches⟩ := by
  cases op with
  | resetEpoch => exact (resets rfl).elim
  | _ => rfl

theorem usage_step (sound : here.Sound) {charges : List Charge}
    (usage : here.usage = Charge.total charges) (step : Step here label next)
    (covered : Covered here label) : next.usage = Charge.total (label.epoch charges) := by
  cases label with
  | called op outcome =>
    cases outcome with
    | ok value =>
      rw [(served_of_step sound step).applied]
      by_cases resets : op = .resetEpoch
      · subst resets
        rfl
      · have appended : (GpuLabel.called op (.ok value)).epoch charges =
            charges ++ [op.charge] := by
          cases op <;> first | rfl | exact (resets rfl).elim
        rw [applied_usage op resets, appended, usage]
        simp [Charge.total]
    | error reason =>
      rw [(unchanged_iff sound step).mpr covered.1]
      cases op <;> exact usage
  | statusSet status =>
    cases step
    exact usage

theorem usage_of_run (unused : context.Unused)
    (run : Run (Guarded Step Covered) context labels final) :
    final.usage = Charge.total (epochCharges labels) := by
  induction run with
  | nil => exact unused.usage
  | snoc before step ih =>
    have sound := sound_of_run unused (before.mono fun _ _ _ guarded => guarded.1)
    rw [epochCharges, List.foldl_append]
    exact usage_step sound ih step.1 step.2

theorem balance_step (sound : here.Sound) (step : Step here label next)
    (covered : Covered here label) :
    next.allocatedMemory + label.succeeded GpuOp.frees =
      here.allocatedMemory + label.succeeded GpuOp.allocates := by
  rw [held_step sound step, GpuLabel.heldAfter]
  cases label with
  | called op outcome =>
    cases outcome with
    | ok value =>
      have enough := (served_of_step sound step).covered covered.2
      exact Nat.sub_add_cancel (Nat.le_add_right_of_le enough)
    | error reason => rfl
  | statusSet status => rfl

theorem balance_of_run (unused : context.Unused)
    (run : Run (Guarded Step Covered) context labels final) :
    final.allocatedMemory + sumSucceeded GpuOp.frees labels =
      sumSucceeded GpuOp.allocates labels := by
  induction run with
  | nil => exact unused.allocated
  | @snoc labels label middle _ before step ih =>
    have sound := sound_of_run unused (before.mono fun _ _ _ guarded => guarded.1)
    have balance := balance_step sound step.1 step.2
    simp only [sumSucceeded, List.map_append, List.sum_append, List.map_singleton,
      List.sum_singleton] at ih ⊢
    omega

/-- Usage never exceeds a limit, and a refused call changes nothing except where it strands a
charge; in a run of covered calls all is accounted for. -/
theorem failuresChargeNothing (unused : context.Unused) :
    (∀ labels final, Run Step context labels final →
      final.Sound ∧ final.allocatedMemory = heldBytes labels ∧
      (∀ op, ∃ outcome next, Step final (.called op outcome) next) ∧
      ∀ op reason next, Step final (.called op (.error reason)) next →
        (next = final ↔ ¬op.Strands final)) ∧
    ∀ labels final, Run (Guarded Step Covered) context labels final →
      final.Sound ∧ final.usage = Charge.total (epochCharges labels) ∧
      final.allocatedMemory + sumSucceeded GpuOp.frees labels =
        sumSucceeded GpuOp.allocates labels ∧
      ∀ op reason next, Guarded Step Covered final (.called op (.error reason)) next →
        next = final := by
  constructor
  · intro labels final run
    have sound := sound_of_run unused run
    exact ⟨sound, held_of_run unused run, fun op => step_total op sound,
      fun op reason next step => unchanged_iff sound step⟩
  · intro labels final run
    have sound := sound_of_run unused (run.mono fun _ _ _ guarded => guarded.1)
    exact ⟨sound, usage_of_run unused run, balance_of_run unused run,
      fun op reason next step => (unchanged_iff sound step.1).mpr step.2.1⟩

/-- Whatever a run has used, the check passes exactly where the launch would be made. -/
theorem checkForetellsLaunch (unused : context.Unused) (run : Run Step context labels final)
    (compute : final.budget.computeNsMax ≤ u64Max)
    (transfer : final.budget.transferBytesMax ≤ u64Max) (computeNs transferBytes : Nat) :
    (checkBudget computeNs transferBytes).runFrom final = some (.ok ⟨⟩, final) ↔
      ∃ next, (tryLaunch computeNs transferBytes).runFrom final = some (.ok ⟨⟩, next) := by
  have sound := sound_of_run unused run
  rcases (@tryLaunch_spec final computeNs transferBytes).outcome with
    ⟨_, next, launched, allowed, -⟩ | ⟨_, _, launched, denied, -⟩ <;>
  rcases (@checkBudget_spec final computeNs transferBytes sound compute transfer).outcome with
    ⟨_, _, checked, admits, rfl⟩ | ⟨_, _, checked, refused, rfl⟩
  · exact ⟨fun _ => ⟨next, launched⟩, fun _ => checked⟩
  · exact (refused allowed).elim
  · exact (denied admits).elim
  · simp [checked, launched]

def oneLaunch : GpuContext :=
  { GpuContext.new ⟨1⟩ 0 (GpuBudget.new 10 20 30 1) with status := .ready }

theorem oneLaunch_unused : oneLaunch.Unused where
  usage := rfl
  memory := rfl
  allocated := rfl

theorem failuresChargeNothing_oneLaunch :
    { oneLaunch with
      budget := { oneLaunch.budget with
        computeNsUsed := 4, transferBytesUsed := 7, kernelLaunchesUsed := 1 }
      activeKernels := 1 }.usage = Charge.total [⟨4, 7, 1⟩] := by
  have run : Run (Guarded Step Covered) oneLaunch
      ([] ++ [.called (.tryLaunch 4 7) (.ok ⟨⟩)]) _ := .snoc .nil ⟨.called rfl, id, id⟩
  exact ((failuresChargeNothing oneLaunch_unused).2 _ _ run).2.1

theorem checkForetellsLaunch_oneLaunch :
    ∃ final, Run Step oneLaunch [.called (.tryLaunch 4 7) (.ok ⟨⟩)] final ∧
      ((checkBudget 1 1).runFrom final = some (.ok ⟨⟩, final) ↔
        ∃ next, (tryLaunch 1 1).runFrom final = some (.ok ⟨⟩, next)) := by
  have launched : Run Step oneLaunch ([] ++ [.called (.tryLaunch 4 7) (.ok ⟨⟩)]) _ :=
    .snoc .nil (.called rfl)
  exact ⟨_, launched, checkForetellsLaunch oneLaunch_unused launched (by decide) (by decide) 1 1⟩

/-- The second launch of the epoch is refused, and its compute time is charged. -/
theorem strandedCharge :
    oneLaunch.Unused ∧ ∃ labels here next reason, Run Step oneLaunch labels here ∧
      Step here (.called (.recordKernelLaunch 5) (.error reason)) next ∧ next ≠ here ∧
      next.usage.computeNs = 9 ∧
      Charge.total (epochCharges (labels ++ [.called (.recordKernelLaunch 5) (.error reason)])) =
        ⟨4, 7, 1⟩ := by
  have launched : Run Step oneLaunch ([] ++ [.called (.tryLaunch 4 7) (.ok ⟨⟩)]) _ :=
    .snoc .nil (.called rfl)
  exact ⟨oneLaunch_unused, _, _, _, .resourceLimitExceeded, launched, .called rfl, by decide, rfl, rfl⟩

end Rvm.Gpu
