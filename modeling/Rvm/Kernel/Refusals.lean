import Rvm.Coherence.Traffic
import Rvm.Kernel.Authority

/-!
Owns what a failing call of the kernel leaves. It leaves the kernel as it was, with a
rejection in the witness log where the gate refused it; but a checked operation that
fails behind the gate leaves the record of its admission.
-/

namespace Rvm

open Cap Coherence Foundation Memory Partition Sched Security Witness ActionKind Function

namespace Partition.IpcManager

variable {maxEdges queueSize : Nat} {manager next : IpcManager}

structure Tallied (maxEdges : Nat) (manager : IpcManager) : Prop where
  count : manager.edgeCount = occupied maxEdges fun i => (manager.queues i).isSome
  outside : ∀ i, maxEdges ≤ i → manager.queues i = none

theorem Tallied.inside (tallied : Tallied maxEdges manager) {i : Nat} {channel : ChannelMeta}
    (held : manager.queues i = some channel) : i < maxEdges := by
  by_contra outside
  rw [tallied.outside i (Nat.not_lt.mp outside)] at held
  cases held

theorem Tallied.setChannel (tallied : Tallied maxEdges manager) {i : Nat}
    {channel changed : ChannelMeta} (held : manager.queues i = some channel) :
    Tallied maxEdges (manager.setChannel i changed) where
  count := by
    refine tallied.count.trans (occupied_congr fun j _ => ?_)
    by_cases here : j = i
    · simp [here, held]
    · simp [here]
  outside j beyond := by
    have apart : j ≠ i := fun here => absurd (tallied.inside held) (Nat.not_lt.mpr (here ▸ beyond))
    rw [setChannel_queues, update_of_ne apart, tallied.outside j beyond]

theorem Tallied.step {label : IpcCall × IpcOutcome} (tallied : Tallied maxEdges manager)
    (step : Step maxEdges queueSize manager label next) : Tallied maxEdges next := by
  cases effect_of_step step with
  | idle => exact tallied
  | bumped => exact ⟨tallied.count, tallied.outside⟩
  | opened below free =>
    refine ⟨(congrArg (· + 1) tallied.count).trans (occupied_filled below free).symm, ?_⟩
    intro j beyond
    rw [openChannel_queues, update_of_ne (by omega)]
    exact tallied.outside j beyond
  | @closed i _ held =>
    refine ⟨?_, fun j beyond => ?_⟩
    · have emptied := occupied_emptied (tallied.inside held) held
      have count := tallied.count
      change manager.edgeCount - 1 = _
      rw [closeChannel_queues]
      omega
    · have inside := tallied.inside held
      rw [closeChannel_queues, update_of_ne (by omega)]
      exact tallied.outside j beyond
  | delivered held => exact tallied.setChannel held
  | taken held => exact tallied.setChannel held

theorem Tallied.createChannel_refused (tallied : Tallied maxEdges manager) {e : RvmError}
    {source dest : PartitionId}
    (failed : manager.createChannel maxEdges source dest = (.error e, next)) : next = manager := by
  unfold createChannel at failed
  split at failed
  · cases failed
    rfl
  · rename_i room
    split at failed
    · cases failed
    · rename_i full
      obtain ⟨i, below, free⟩ := exists_free (tallied.count ▸ Nat.not_le.mp room)
      have missing := List.find?_eq_none.mp full i (List.mem_range.mpr below)
      simp only [Option.isSome_eq_false_iff] at free
      exact absurd free missing

end Partition.IpcManager

/-- No table holds anything beyond its capacity. -/
structure Subsystems.Bounded (subsystems : Subsystems) : Prop where
  channels : IpcManager.Tallied defaultMaxIpcChannels subsystems.ipc
  slots : ∀ i, maxPartitions ≤ i → subsystems.partitions.partitions i = none

theorem Partition.PartitionManager.remove_of_get {manager : PartitionManager} {id : PartitionId}
    {partition : Partition} (slots : ∀ i, maxPartitions ≤ i → manager.partitions i = none)
    (found : manager.get id = some partition) : ∃ next, manager.remove id = .ok next := by
  obtain ⟨i, slot, held⟩ := Option.bind_eq_some_iff.mp found
  have listed : (manager.partitionIn id i).isSome = true := by
    rw [slotOf, Option.or_eq_some_iff] at slot
    cases slot with
    | inl indexed =>
      split at indexed
      · exact (Option.filter_eq_some_iff.mp indexed).2
      · cases indexed
    | inr scanned => exact List.find?_some (p := fun i => (manager.partitionIn id i).isSome) scanned.2
  have below : i < maxPartitions := by
    by_contra outside
    rw [slots i (Nat.not_lt.mp outside)] at held
    cases held
  unfold remove
  split
  · exact ⟨_, rfl⟩
  · rename_i missing
    exact absurd listed (List.find?_eq_none.mp missing i (List.mem_range.mpr below))

namespace Kernel

variable {N : Nat} {hasher : ChainHasher} {kernel next : Kernel}

theorem Effect.bounded {label : KernelCall × KernelOutcome} (effect : Effect kernel label next)
    (bounded : kernel.subsystems.Bounded) : next.subsystems.Bounded := by
  cases effect with
  | ticked _ _ _ sameIds same =>
    rw [same]
    refine { bounded with slots := fun i beyond => ?_ }
    have mapped := sameIds i
    rw [show kernel.partitions.partitions i = none from bounded.slots i beyond] at mapped
    exact Option.map_eq_none_iff.mp mapped
  | messaged _ _ moves same =>
    rw [same]
    refine { bounded with channels := ?_ }
    rcases moves with unchanged | ⟨_, _, step⟩
    · rw [unchanged]
      exact bounded.channels
    · exact bounded.channels.step step
  | registered _ _ _ created same =>
    rw [same]
    refine { bounded with slots := fun i beyond => ?_ }
    obtain ⟨_, _, j, below, _, rfl⟩ := PartitionManager.create_places created
    exact (update_of_ne (by omega) _ _).trans (bounded.slots i beyond)
  | forgot _ _ _ table same =>
    rw [same]
    refine { bounded with slots := ?_ }
    rcases table with unchanged | removed
    · rw [unchanged]
      exact bounded.slots
    · obtain ⟨j, _, below, _, _, vacated⟩ := PartitionManager.remove_vacates removed
      intro i beyond
      rw [vacated]
      exact (update_of_ne (by omega) _ _).trans (bounded.slots i beyond)
  | @opened source dest _ _ _ _ _ same =>
    rw [same]
    have step : IpcManager.Step defaultMaxIpcChannels defaultIpcQueueSize kernel.ipc
      (.createChannel source dest, _) _ := rfl
    exact { bounded with channels := bounded.channels.step step }
  | idle _ same | managed _ same | enqueued _ _ same | switched same | degraded _ same
  | leased _ same | equipped _ _ same =>
    rw [same]
    exact { bounded with }

theorem bounded_of_run {cap : CapManagerConfig} {history : List (KernelCall × KernelOutcome)}
    (run : Run (Step N hasher) (.new cap) history kernel) : kernel.subsystems.Bounded :=
  @Run.stateInvariant _ _ _ _ _ _ (fun here => here.subsystems.Bounded)
    ⟨⟨occupied_none.symm, fun _ _ => rfl⟩, fun _ _ => rfl⟩
    (fun _ _ _ bounded step => (effect_of_step step).bounded bounded) run

end Kernel

def lostMessage : IpcMessage := ⟨⟨1⟩, ⟨2⟩, 7, 0, 0, 0, 0⟩

/-- The call is a checked one, and the gate admits its token. -/
def KernelCall.Admitted (kernel : Kernel) (call : KernelCall) : Prop :=
  kernel.booted = true ∧ ∃ token, call.presents = some token ∧ token.capType = .partition ∧
    token.hasRights .write = true

namespace Kernel

variable {N : Nat} {hasher : ChainHasher} {kernel next : Kernel} {e : RvmError}

/-- A failing call changed nothing, or appended a rejection to the log. -/
def Untouched (N : Nat) (hasher : ChainHasher) (kernel next : Kernel) : Prop :=
  next = kernel ∨ ∃ record, record.actionKind = proofRejected.asU8 ∧
    next = kernel.emit N hasher record

/-- What a call that fails leaves: no more than a rejection, or the record of an
admission. -/
def Refused (N : Nat) (hasher : ChainHasher) (kernel : Kernel) (call : KernelCall) (next : Kernel) :
    Prop :=
  ¬ call.Admitted kernel ∧ Untouched N hasher kernel next ∨
    call.Admitted kernel ∧ ∃ record, record.actionKind ≠ proofRejected.asU8 ∧
      next = kernel.emit N hasher record

theorem not_untouched_emit {record : WitnessRecord}
    (admits : record.actionKind ≠ proofRejected.asU8) :
    ¬ Untouched N hasher kernel (kernel.emit N hasher record) := by
  rintro (same | ⟨rejection, rejects, same⟩)
  · have counts := congrArg (fun here => here.witnessLog.written) same
    exact Nat.succ_ne_self _ counts
  · have kinds := congrArg (fun here =>
      (here.witnessLog.records kernel.witnessLog.writePos).actionKind) same
    simp only [emit, WitnessLog.append, WitnessLog.store, update_self, WitnessLog.stamp] at kinds
    exact admits (kinds.trans rejects)

theorem refused_of_unchanged {call : KernelCall}
    (ungated : call.presents = none ∨ kernel.booted = false) :
    Refused N hasher kernel call kernel := by
  refine .inl ⟨fun held => ?_, .inl rfl⟩
  obtain ⟨booted, token, presents, _⟩ := held
  rw [presents, booted] at ungated
  simp at ungated

theorem refused_of_step (consistent : kernel.subsystems.Consistent)
    (bounded : kernel.subsystems.Bounded) {call : KernelCall}
    (step : Step N hasher kernel (call, .error e) next) : Refused N hasher kernel call next := by
  have answers := answers_of_step step
  generalize failed : (.error e : KernelOutcome) = outcome at answers
  cases answers with
  | refused reaches =>
    cases reaches with
    | straight ungated => exact refused_of_unchanged ungated
    | creation booted allowed =>
      refine .inr ⟨⟨booted, _, rfl, writeRequest_check.mp ⟨_, allowed⟩⟩, _, ?_, rfl⟩
      exact (by decide : partitionCreate.asU8 ≠ proofRejected.asU8)
    | send booted allowed =>
      refine .inr ⟨⟨booted, _, rfl, writeRequest_check.mp ⟨_, allowed⟩⟩, _, ?_, rfl⟩
      exact (by decide : ActionKind.ipcSend.asU8 ≠ ActionKind.proofRejected.asU8)
  | @rejected _ token action target _ presents denied =>
    refine .inl ⟨fun held => ?_, .inr ⟨_, rfl, rfl⟩⟩
    obtain ⟨_, other, same, granted⟩ := held
    obtain rfl := Option.some.inj (presents.symm.trans same)
    obtain ⟨tier, allowed⟩ := (@writeRequest_check token action target).mpr granted
    rw [denied] at allowed
    cases allowed
  | @recorded _ _ _ result _ _ walked =>
    cases result with
    | error other =>
      rw [CoherenceEngine.recordCommunication_failed walked]
      exact refused_of_unchanged (.inl rfl)
    | ok done => cases failed
  | @destroyed id _ _ _ _ found =>
    unfold finishDestroy at failed ⊢
    split
    · rename_i missing
      obtain ⟨partitions, left⟩ := PartitionManager.remove_of_get bounded.slots found
      rw [show kernel.subsystems.partitions = kernel.partitions from rfl, missing] at left
      cases left
    · rename_i removed
      rw [removed] at failed
      cases failed
  | unopened _ _ _ unopened =>
    rw [show _ = kernel.ipc from bounded.channels.createChannel_refused unopened]
    exact refused_of_unchanged (.inl rfl)
  | @unleased deviceId partition durationEpochs capHash _ _ _ unleased =>
    -- there are fewer devices than lease slots, so that a granted lease is stored
    have granted := consistent.exclusive.grantLease_cases deviceId partition durationEpochs
      kernel.scheduler.currentEpoch capHash
    change _ ∨ _ at granted
    rcases granted with ⟨other, refused⟩ | ⟨i, device, j, lease, -, -, -, -, -, -, -, -, accepted⟩
    · obtain rfl := congrArg Prod.snd (refused.symm.trans unleased)
      exact refused_of_unchanged (.inl rfl)
    · cases accepted.symm.trans unleased
  | _ => cases failed

/-- A failing call leaves the kernel as it was, with at most a rejection in the log, exactly where
it is no checked call that the gate admitted. -/
theorem atomicOnError (N : Nat) (hasher : ChainHasher) (cap : CapManagerConfig)
    (history : List (KernelCall × KernelOutcome)) (kernel : Kernel)
    (run : Run (Step N hasher) (.new cap) history kernel) (call : KernelCall) (e : RvmError)
    (next : Kernel) (step : Step N hasher kernel (call, .error e) next) :
    Untouched N hasher kernel next ↔ ¬ call.Admitted kernel := by
  rcases refused_of_step (consistent_of_run run) (bounded_of_run run) step with
    ⟨refused, untouched⟩ | ⟨admitted, record, admits, left⟩
  · exact iff_of_true untouched refused
  · rw [left]
    exact iff_of_false (not_untouched_emit admits) (not_not.mpr admitted)

/-- A send on a channel that was never created, refused without a capability. -/
theorem atomicOnError_unchecked : ∃ kernel next,
    Run (Step 256 sampleHasher) (.new .new) [(.boot, .ok .done)] kernel ∧
      Step 256 sampleHasher kernel (.ipcSend 7 lostMessage ⟨1⟩, .error .partitionNotFound) next ∧
      Untouched 256 sampleHasher kernel next := by
  have run : Run (Step 256 sampleHasher) (.new .new) [(.boot, .ok .done)] _ := Run.single ⟨0, rfl⟩
  refine ⟨_, _, run, ⟨0, rfl⟩, ?_⟩
  refine (atomicOnError 256 sampleHasher .new _ _ run (.ipcSend 7 lostMessage ⟨1⟩)
    .partitionNotFound _ ⟨0, rfl⟩).mpr ?_
  rintro ⟨_, _, presents, _⟩
  cases presents

/-- The same send with a token that the gate admits fails too, and leaves a record of
a send in the log. -/
theorem atomicOnError_admitted : ∃ kernel next,
    Run (Step 256 sampleHasher) (.new .new) [(.boot, .ok .done)] kernel ∧
      Step 256 sampleHasher kernel
        (.checkedIpcSend 7 lostMessage sampleToken, .error .partitionNotFound) next ∧
      next.witnessLog.totalEmitted = kernel.witnessLog.totalEmitted + 1 ∧
      (next.witnessLog.records kernel.witnessLog.writePos).actionKind = ActionKind.ipcSend.asU8 ∧
      ¬ Untouched 256 sampleHasher kernel next := by
  have run : Run (Step 256 sampleHasher) (.new .new) [(.boot, .ok .done)] _ := Run.single ⟨0, rfl⟩
  refine ⟨_, _, run, ⟨0, rfl⟩, rfl, rfl, ?_⟩
  exact @not_untouched_emit 256 sampleHasher _
    ((writeRequest sampleToken .ipcSend lostMessage.receiver.asU32).allowed 1) (by decide)

end Kernel

end Rvm
