import Rvm.Kernel.Audit
import Rvm.Witness.Snapshot

/-!
Owns what an export of the witness log tells of the calls since its checkpoint. The gate leaves
records of its own, of the kinds of the calls that it guards.
-/

namespace Rvm

open Cap Coherence Foundation Partition Witness List WitnessLog

namespace Kernel

variable {N : Nat} {hasher : ChainHasher} {kernel middle next : Kernel} {cap : CapManagerConfig}
  {earlier history : List (KernelCall × KernelOutcome)}

/-- The record of what a call has done. -/
def noted : KernelCall × KernelOutcome → Option WitnessRecord
  | (.tick, .ok (.epoch summary _)) =>
    some (witnessRecord .schedulerEpoch 0 0 (littleEndian summary.switchCount))
  | (.createPartition _, .ok (.partition id))
  | (.checkedCreatePartition _ _, .ok (.partition id)) =>
    some (witnessRecord .partitionCreate PartitionId.hypervisor.asU32 id.asU32 noPayload)
  | (.destroyPartition id, .ok _) =>
    some (witnessRecord .partitionDestroy PartitionId.hypervisor.asU32 id.asU32 noPayload)
  | (.executeSplit source, .ok (.partition child))
  | (.applyDecision _, .ok (.applied (.split source child))) =>
    some (witnessRecord .structuralSplit source.asU32 child.asU32 noPayload)
  | (.executeMerge absorber absorbed, .ok _)
  | (.applyDecision _, .ok (.applied (.merged absorber absorbed))) =>
    some (witnessRecord .structuralMerge absorber.asU32 absorbed.asU32 noPayload)
  | (.createChannel source dest, .ok _) =>
    some (witnessRecord .commEdgeCreate source.asU32 dest.asU32 noPayload)
  | (.ipcSend _ msg _, .ok _) | (.checkedIpcSend _ msg _, .ok _) =>
    some (witnessRecord .ipcSend msg.sender.asU32 msg.receiver.asU32 noPayload)
  | (.destroyChannel edgeId, .ok _) =>
    some (witnessRecord .commEdgeDestroy 0 0 (littleEndian edgeId))
  | (.promoteRegion regionId target, .ok (.tier oldTier)) =>
    some (witnessRecord .regionPromote 0 regionId
      (littleEndian (oldTier.index + 256 * target.index)))
  | (.demoteRegion regionId target, .ok (.tier oldTier)) =>
    some (witnessRecord .regionDemote 0 regionId
      (littleEndian (oldTier.index + 256 * target.index)))
  | (.grantDeviceLease deviceId partition _ _, .ok _) =>
    some (witnessRecord .deviceLeaseGrant partition.asU32 deviceId noPayload)
  | (.revokeDeviceLease leaseId, .ok _) =>
    some (witnessRecord .deviceLeaseRevoke 0 0 (littleEndian leaseId))
  | (.enterDegradedMode, .ok _) => some (witnessRecord .degradedModeEntered 0 0 noPayload)
  | (.exitDegradedMode, .ok _) => some (witnessRecord .degradedModeExited 0 0 noPayload)
  | _ => none

/-- Of a kind that neither the gate nor the boot writes. -/
def Plain (record : WitnessRecord) : Bool :=
  record.actionKind ∉ [ActionKind.partitionCreate, .ipcSend, .proofRejected, .bootAttestation,
    .bootComplete].map ActionKind.asU8

/-- The log has grown by what the calls did and, of kinds that are not plain, by more. -/
def Notes (N : Nat) (hasher : ChainHasher) (log later : WitnessLog)
    (history : List (KernelCall × KernelOutcome)) : Prop :=
  ∃ records : List WitnessRecord, later = log.run N hasher (records.map .append) ∧
    history.filterMap noted <+ records ∧
    records.filter Plain = (history.filterMap noted).filter Plain

/-- The log has grown by records of the gate or of the boot only. -/
def Aside (N : Nat) (hasher : ChainHasher) (log later : WitnessLog) : Prop :=
  ∃ records : List WitnessRecord,
    later = log.run N hasher (records.map .append) ∧ records.filter Plain = []

variable {log later : WitnessLog} {label : KernelCall × KernelOutcome} {record : WitnessRecord}

theorem Aside.same : Aside N hasher log log := ⟨[], rfl, rfl⟩

theorem Aside.quiet (aside : Aside N hasher log later) (quiet : noted label = none) :
    Notes N hasher log later [label] := by
  obtain ⟨records, same, none⟩ := aside
  rw [Notes, filterMap_cons_none quiet]
  exact ⟨records, same, nil_sublist _, none⟩

theorem Aside.append (aside : Aside N hasher log later) (notes : noted label = some record) :
    Notes N hasher log (later.append N hasher record).2 [label] := by
  obtain ⟨records, rfl, none⟩ := aside
  refine ⟨records ++ [record], ?_, ?_, ?_⟩
  · rw [map_append, run_append]
    rfl
  · rw [filterMap_cons_some notes]
    exact sublist_append_right records [record]
  · rw [filter_append, none, filterMap_cons_some notes]
    rfl

theorem aside_of_completePhases (phases : List BootPhase) : ∀ kernel : Kernel,
    Aside N hasher kernel.witnessLog (completePhases N hasher kernel phases).2.witnessLog := by
  induction phases with
  | nil => exact fun _ => .same
  | cons phase rest ih =>
    intro kernel
    rw [completePhases]
    split
    · exact .same
    · rename_i tracker _
      obtain ⟨records, log, none⟩ := ih
        ({ kernel with boot := tracker }.emit N hasher (bootWitness phase))
      have boots : Plain (bootWitness phase) = false := by cases phase <;> rfl
      exact ⟨bootWitness phase :: records, log, by rw [filter_cons, boots]; exact none⟩

theorem Reaches.aside {call inner : KernelCall} (reaches : Reaches N hasher kernel call inner log) :
    Aside N hasher kernel.witnessLog log := by
  cases reaches with
  | straight => exact .same
  | creation | send => exact ⟨[_], rfl, rfl⟩

theorem notes_of_step (step : Step N hasher kernel label next) :
    Notes N hasher kernel.witnessLog next.witnessLog [label] := by
  obtain ⟨call, outcome⟩ := label
  cases answers_of_step step with
  | refused reaches => exact reaches.aside.quiet (by cases call <;> rfl)
  | rejected => exact Aside.quiet ⟨[_], rfl, rfl⟩ (by cases call <;> rfl)
  | booted => exact (aside_of_completePhases bootPhases kernel).quiet rfl
  | created reaches | sent reaches =>
    have before := reaches.aside
    cases reaches <;> exact before.append rfl
  | split asks | merged asks => cases asks <;> exact Aside.same.append rfl
  | destroyed =>
    unfold finishDestroy
    split
    · exact Aside.same.quiet rfl
    · exact Aside.same.append rfl
  | @recorded _ _ _ result => exact Aside.same.quiet (by cases result <;> rfl)
  | retiered asks => exact Aside.same.quiet (by cases asks <;> rfl)
  | ticked | opened | closed | promoted | demoted | leased | returned | degraded | restored =>
    exact Aside.same.append rfl
  | managed | enqueued | switched | ignored | unopened | received | registered | unleased =>
    exact Aside.same.quiet rfl

theorem notes_of_run (run : Run (Step N hasher) middle history kernel) :
    Notes N hasher middle.witnessLog kernel.witnessLog history := by
  induction run with
  | nil => exact ⟨[], rfl, .slnil, rfl⟩
  | snoc _ step ih =>
    obtain ⟨before, log, within, plain⟩ := ih
    obtain ⟨more, later, withinMore, plainMore⟩ := notes_of_step step
    refine ⟨before ++ more, ?_, ?_, ?_⟩
    · rw [later, log, map_append, run_append]
    · rw [filterMap_append]
      exact within.append withinMore
    · rw [filterMap_append, filter_append, filter_append, plain, plainMore]

/-- From a checkpoint in any run, an export is refused or holds what the calls since then did. -/
theorem auditExport (positive : 0 < N) (run : Run (Step N hasher) (.new cap) earlier middle)
    (later : Run (Step N hasher) middle history kernel)
    (fits : kernel.witnessLog.written < 18446744073709551616) :
    ∃ records : List WitnessRecord,
      kernel.witnessLog = middle.witnessLog.run N hasher (records.map .append) ∧
      history.filterMap noted <+ records ∧
      records.filter Plain = (history.filterMap noted).filter Plain ∧
      ∀ out, ExactSnapshot N hasher middle.witnessLog (records.map .append) out := by
  obtain ⟨before, start, _⟩ := notes_of_run run
  obtain ⟨records, log, within, plain⟩ := notes_of_run later
  refine ⟨records, log, within, plain, fun out => ?_⟩
  rw [log, start, written_run, written_run] at fits
  rw [start]
  refine (logged_produced _ ?_).exactSnapshot positive _ ?_ out
  · change 0 + _ + _ < _ at fits
    omega
  · rw [produced_length]
    change 0 + _ + _ < _ at fits
    omega

theorem auditExport_createOne : ∃ (middle kernel : Kernel) (records : List WitnessRecord),
    Run (Step 256 sampleHasher) (.new .new) createOne kernel ∧
    kernel.witnessLog = middle.witnessLog.run 256 sampleHasher (records.map .append) ∧
    [witnessRecord .partitionCreate 0 1 noPayload] <+ records ∧
    ∀ out, ExactSnapshot 256 sampleHasher middle.witnessLog (records.map .append) out := by
  let booted := (bootUp 256 sampleHasher (.new .new)).2
  have before : Run (Step 256 sampleHasher) (.new .new) [(.boot, .ok .done)] booted :=
    Run.single ⟨0, rfl⟩
  have later : Run (Step 256 sampleHasher) booted
      [(.createPartition ⟨1⟩, .ok (.partition ⟨1⟩))] _ := Run.single ⟨0, rfl⟩
  obtain ⟨records, log, within, _, exact⟩ := auditExport (by decide) before later (by decide)
  exact ⟨_, _, records, before.append later, log, within, exact⟩

end Kernel

end Rvm
