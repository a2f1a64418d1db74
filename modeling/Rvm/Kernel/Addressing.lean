import Rvm.Coherence.Traffic
import Rvm.Kernel.Merge

/-!
Owns the messages that the kernel carries: which calls add weight to the coherence graph,
and that edges deliver them. A send checks the sender; the receiver and the edge that the
message names are its word.
-/

namespace Rvm

open Cap Coherence Foundation Memory Partition Sched Security Witness CoherenceEngine

namespace Partition.IpcManager

variable {maxEdges queueSize edgeId : Nat} {manager next : IpcManager} {msg : IpcMessage}
  {callerId : PartitionId}

def OpenFrom (maxEdges : Nat) (manager : IpcManager) (edgeId : Nat) (source : PartitionId) : Prop :=
  ∃ i channel, manager.find maxEdges edgeId = some (i, channel) ∧
    manager.queues i = some channel ∧ channel.edgeId = edgeId ∧ channel.source = source

theorem send_accepted
    (sent : manager.send maxEdges queueSize edgeId msg callerId = (.ok (), next)) :
    msg.sender = callerId ∧ manager.OpenFrom maxEdges edgeId msg.sender := by
  unfold send at sent
  split at sent
  · cases sent
  · rename_i honest
    have sameSender : msg.sender = callerId := not_not.mp honest
    split at sent
    · cases sent
    · rename_i i channel found
      split at sent
      · cases sent
      · rename_i fromSource
        obtain ⟨held, sameEdge⟩ := find_sound found
        exact ⟨sameSender, i, channel, found, held, sameEdge,
          (not_not.mp fromSource).trans sameSender.symm⟩

end Partition.IpcManager

namespace Kernel

variable {N : Nat} {hasher : ChainHasher} {kernel next : Kernel}

structure SentOver (kernel : Kernel) (edgeId : Nat) (msg : IpcMessage) (a b : PartitionId) :
    Prop where
  sender : msg.sender = a
  receiver : msg.receiver = b
  channel : kernel.ipc.OpenFrom defaultMaxIpcChannels edgeId a

def Feeds (kernel : Kernel) (label : KernelCall × KernelOutcome) (a b : PartitionId) : Prop :=
  match label with
  | (.recordCommunication source target _, .ok _) => source = a ∧ target = b
  | (.ipcSend edgeId msg callerId, .ok _) => callerId = a ∧ kernel.SentOver edgeId msg a b
  | (.checkedIpcSend edgeId msg _, .ok _) => kernel.SentOver edgeId msg a b
  | _ => False

inductive CoherenceChange (kernel : Kernel) (label : KernelCall × KernelOutcome) (next : Kernel) :
    Prop
  | kept (same : next.coherence = kernel.coherence)
  | ticked {decision : CoherenceDecision}
      (ticked : kernel.coherence.tick 20 = some (decision, next.coherence))
  | added {id : PartitionId} (added : next.coherence = (kernel.coherence.addPartition id).2)
  | removed {id : PartitionId} {result : Except RvmError Unit}
      (removed : kernel.coherence.removePartition id = some (result, next.coherence))
  | recorded {source target : PartitionId} {weight : Nat} {result : Except RvmError Unit}
      (feeds : result = .ok () → kernel.Feeds label source target)
      (recorded : kernel.coherence.recordCommunication source target weight =
        some (result, next.coherence))

theorem coherenceChange_of_step {label : KernelCall × KernelOutcome}
    (step : Step N hasher kernel label next) : CoherenceChange kernel label next := by
  obtain ⟨call, outcome⟩ := label
  cases answers_of_step step with
  | booted => exact .kept (congrArg Subsystems.coherence (completePhases_subsystems bootPhases kernel))
  | ticked _ walked => exact .ticked walked
  | recorded _ walked =>
    refine .recorded (fun accepted => ?_) walked
    subst accepted
    exact ⟨rfl, rfl⟩
  | created | split => exact .added rfl
  | destroyed _ _ _ forgot =>
    unfold finishDestroy
    split
    · exact .removed forgot
    · exact .removed forgot
  | merged _ _ forgot => exact .removed forgot
  | sent reaches _ accepted walked =>
    obtain ⟨sameSender, channel⟩ := IpcManager.send_accepted accepted
    cases reaches with
    | straight => exact .recorded (fun _ => ⟨sameSender.symm, rfl, rfl, channel⟩) walked
    | send => exact .recorded (fun _ => ⟨rfl, rfl, channel⟩) walked
  | _ =>
    -- the other calls do not touch the engine
    exact .kept rfl

theorem CoherenceChange.grew {label : KernelCall × KernelOutcome}
    (change : CoherenceChange kernel label next) (weighing : kernel.coherence.Weighing) :
    next.coherence.Weighing ∧
      ∀ a b, CoherenceEngine.Grew a b kernel.coherence next.coherence → kernel.Feeds label a b := by
  cases change with
  | kept same =>
    rw [same]
    exact ⟨weighing, fun a b grew => absurd grew (not_grew_of_same rfl)⟩
  | ticked ticked =>
    obtain ⟨kept, never⟩ := weighing.tick ticked
    exact ⟨kept, fun a b grew => absurd grew (never a b)⟩
  | @added id added =>
    rw [added]
    obtain ⟨kept, never⟩ := weighing.addPartition id
    exact ⟨kept, fun a b grew => absurd grew (never a b)⟩
  | removed removed =>
    obtain ⟨kept, never⟩ := weighing.removePartition removed
    exact ⟨kept, fun a b grew => absurd grew (never a b)⟩
  | @recorded source target weight result feeds recorded =>
    obtain ⟨kept, between⟩ := weighing.recordCommunication recorded
    refine ⟨kept, fun a b grew => ?_⟩
    obtain ⟨rfl, rfl⟩ := between a b grew
    cases result with
    | ok done => exact feeds rfl
    | error e =>
      exact absurd grew (not_grew_of_same
        (congrArg _ (recordCommunication_failed recorded)))

theorem weighing_of_run {cap : CapManagerConfig} {history : List (KernelCall × KernelOutcome)}
    (run : Run (Step N hasher) (.new cap) history kernel) : kernel.coherence.Weighing :=
  @Run.stateInvariant _ _ _ _ _ _ (fun here => here.coherence.Weighing)
    weighing_new
    (fun _ _ _ weighing step => ((coherenceChange_of_step step).grew weighing).1) run

/-- Every accepted message is from the source of its channel, and weight grows only by an explicit
record or an accepted message that names the two. -/
theorem messageAddressing :
    (∀ (maxEdges queueSize : Nat) (history : List (IpcCall × IpcOutcome)) (manager : IpcManager),
      Run (IpcManager.Step maxEdges queueSize) .new history manager →
      ∀ edgeId msg callerId next,
        manager.send maxEdges queueSize edgeId msg callerId = (.ok (), next) →
        msg.sender = callerId ∧ manager.OpenFrom maxEdges edgeId msg.sender) ∧
    ∀ (N : Nat) (hasher : ChainHasher) (cap : CapManagerConfig)
      (history : List (KernelCall × KernelOutcome)) (kernel : Kernel),
      Run (Step N hasher) (.new cap) history kernel →
      ∀ label next, Step N hasher kernel label next →
      ∀ a b, CoherenceEngine.Grew a b kernel.coherence next.coherence → kernel.Feeds label a b := by
  constructor
  · intro maxEdges queueSize history manager _ edgeId msg callerId next sent
    exact IpcManager.send_accepted sent
  · intro N hasher cap history kernel run label next step
    exact ((coherenceChange_of_step step).grew (weighing_of_run run)).2

/-- Booting, three creations and a channel from the first partition to the second. -/
def openedPair : List (KernelCall × KernelOutcome) :=
  [(.boot, .ok .done), (.createPartition ⟨1⟩, .ok (.partition ⟨1⟩)),
    (.createPartition ⟨1⟩, .ok (.partition ⟨2⟩)), (.createPartition ⟨1⟩, .ok (.partition ⟨3⟩)),
    (.createChannel ⟨1⟩ ⟨2⟩, .ok (.edge 1))]

/-- A message to the third partition that names another edge. -/
def strayMessage : IpcMessage := ⟨⟨1⟩, ⟨3⟩, 7, 0, 0, 0, 0⟩

theorem openedPair_run :
    ∃ kernel, Run (Step 256 sampleHasher) (.new .new) openedPair kernel ∧
      (∀ i channel, kernel.ipc.queues i = some channel → channel.dest = ⟨2⟩) ∧
      ∃ next, Step 256 sampleHasher kernel (.ipcSend 1 strayMessage ⟨1⟩, .ok .done) next ∧
        CoherenceEngine.Grew ⟨1⟩ ⟨3⟩ kernel.coherence next.coherence := by
  have run : Run (Step 256 sampleHasher) (.new .new) openedPair _ :=
    .cons ⟨0, rfl⟩ <| .cons ⟨0, rfl⟩ <| .cons ⟨0, rfl⟩ <| .cons ⟨0, rfl⟩ <| .single ⟨0, rfl⟩
  refine ⟨_, run, fun i channel held => ?_, _, ⟨0, rfl⟩, .inr (by decide)⟩
  have queues : Function.update (fun _ => none) 0 (some ⟨1, ⟨1⟩, ⟨2⟩, .new, 0⟩) i = some channel :=
    held
  by_cases here : i = 0
  · rw [here, Function.update_self] at queues
    cases queues
    rfl
  · rw [Function.update_of_ne here] at queues
    cases queues

theorem messageAddressing_openedPair :
    (∃ manager, Run (IpcManager.Step 4 2) .new [(.createChannel ⟨1⟩ ⟨2⟩, .ok (.edge 1))] manager ∧
      strayMessage.sender = ⟨1⟩ ∧ manager.OpenFrom 4 1 strayMessage.sender) ∧
    ∃ kernel next, Run (Step 256 sampleHasher) (.new .new) openedPair kernel ∧
      Step 256 sampleHasher kernel (.ipcSend 1 strayMessage ⟨1⟩, .ok .done) next ∧
      kernel.Feeds (.ipcSend 1 strayMessage ⟨1⟩, .ok .done) ⟨1⟩ ⟨3⟩ := by
  constructor
  · have run : Run (IpcManager.Step 4 2) .new [(.createChannel ⟨1⟩ ⟨2⟩, .ok (.edge 1))] _ :=
      Run.single rfl
    exact ⟨_, run, messageAddressing.1 4 2 _ _ run 1 strayMessage ⟨1⟩ _ rfl⟩
  · obtain ⟨kernel, run, _, next, step, grew⟩ := openedPair_run
    exact ⟨kernel, next, run, step,
      messageAddressing.2 256 sampleHasher .new _ kernel run _ next step ⟨1⟩ ⟨3⟩ grew⟩

/-- On a channel to the second partition, a message to the third that names another edge is
accepted, and weight grows where no channel goes. -/
theorem messageAddressing_strays :
    (∃ manager next, Run (IpcManager.Step 4 2) .new
        [(.createChannel ⟨1⟩ ⟨2⟩, .ok (.edge 1))] manager ∧
      manager.send 4 2 1 strayMessage ⟨1⟩ = (.ok (), next) ∧
      strayMessage.receiver ≠ ⟨2⟩ ∧ strayMessage.edgeId ≠ 1) ∧
    ∃ kernel next, Run (Step 256 sampleHasher) (.new .new) openedPair kernel ∧
      Step 256 sampleHasher kernel (.ipcSend 1 strayMessage ⟨1⟩, .ok .done) next ∧
      CoherenceEngine.Grew ⟨1⟩ ⟨3⟩ kernel.coherence next.coherence ∧
      ∀ i channel, kernel.ipc.queues i = some channel → channel.dest ≠ ⟨3⟩ := by
  constructor
  · exact ⟨_, _, Run.single rfl, rfl, by decide, by decide⟩
  · obtain ⟨kernel, run, dest, next, step, grew⟩ := openedPair_run
    refine ⟨kernel, next, run, step, grew, fun i channel held => ?_⟩
    rw [dest i channel held]
    decide

/-! ### Delivery -/

/-- The message that a call puts on an edge. -/
def sentThrough (edgeId : Nat) : KernelCall × KernelOutcome → Option IpcMessage
  | (.ipcSend edge msg _, .ok _) | (.checkedIpcSend edge msg _, .ok _) =>
    if edge = edgeId then some msg else none
  | _ => none

def receivedThrough (edgeId : Nat) : KernelCall × KernelOutcome → Option IpcMessage
  | (.ipcReceive edge, .ok (.message msg)) => if edge = edgeId then msg else none
  | _ => none

/-- The channel that a call opens. -/
def openedThrough : KernelCall × KernelOutcome → Option Nat
  | (.createChannel _ _, .ok (.edge edgeId)) => some edgeId
  | _ => none

variable {cap : CapManagerConfig} {history : List (KernelCall × KernelOutcome)}

/-- Calls of the kernel come down to calls of its channels that open the same channels and carry
the same messages. -/
def Carried (before after : IpcManager) (history : List (KernelCall × KernelOutcome)) : Prop :=
  ∃ calls, Run (IpcManager.Step defaultMaxIpcChannels defaultIpcQueueSize) before calls after ∧
    Partition.created calls = history.filterMap openedThrough ∧
    ∀ edgeId, sent edgeId calls = history.filterMap (sentThrough edgeId) ∧
      received edgeId calls = history.filterMap (receivedThrough edgeId)

theorem carried_of_step {label : KernelCall × KernelOutcome}
    (step : Step N hasher kernel label next) : Carried kernel.ipc next.ipc [label] := by
  obtain ⟨call, outcome⟩ := label
  cases answers_of_step step with
  | booted =>
    have same : (kernel.bootUp N hasher).2.ipc = kernel.ipc :=
      congrArg Subsystems.ipc (completePhases_subsystems bootPhases kernel)
    exact same ▸ ⟨[], .nil, rfl, fun _ => ⟨rfl, rfl⟩⟩
  | refused | rejected => cases call <;> exact ⟨[], .nil, rfl, fun _ => ⟨rfl, rfl⟩⟩
  | created asks | split asks | merged asks | retiered asks =>
    cases asks <;> exact ⟨[], .nil, rfl, fun _ => ⟨rfl, rfl⟩⟩
  | destroyed =>
    unfold finishDestroy
    split <;> exact ⟨[], .nil, rfl, fun _ => ⟨rfl, rfl⟩⟩
  | @opened source dest edgeId _ _ _ _ made =>
    refine ⟨[(.createChannel source dest, .ok (.edge edgeId))], .single ?_, rfl, fun _ => ⟨rfl, rfl⟩⟩
    simp [IpcManager.Step, IpcManager.apply, made, Except.map, emit]
  | @unopened source dest e _ _ _ _ made =>
    refine ⟨[(.createChannel source dest, .error e)], .single ?_, rfl, fun _ => ⟨rfl, rfl⟩⟩
    simp [IpcManager.Step, IpcManager.apply, made, Except.map]
  | @sent _ edgeId msg callerId _ _ _ _ reaches _ made =>
    refine ⟨[(.send edgeId msg callerId, .ok .done)], .single ?_, ?_⟩
    · simp [IpcManager.Step, IpcManager.apply, made, Except.map, emit]
    · cases reaches <;> exact ⟨rfl, fun _ => ⟨rfl, rfl⟩⟩
  | @received edgeId msg _ _ made =>
    refine ⟨[(.receive edgeId, .ok (.message msg))], .single ?_, rfl, fun _ => ⟨rfl, rfl⟩⟩
    simp [IpcManager.Step, IpcManager.apply, made, Except.map]
  | @closed edgeId _ _ made =>
    refine ⟨[(.destroyChannel edgeId, .ok .done)], .single ?_, rfl, fun _ => ⟨rfl, rfl⟩⟩
    simp [IpcManager.Step, IpcManager.apply, made, Except.map, emit]
  | _ => exact ⟨[], .nil, rfl, fun _ => ⟨rfl, rfl⟩⟩

theorem carried_of_run (run : Run (Step N hasher) (.new cap) history kernel) :
    Carried .new kernel.ipc history := by
  induction run with
  | nil => exact ⟨[], .nil, rfl, fun _ => ⟨rfl, rfl⟩⟩
  | snoc _ step ih =>
    obtain ⟨calls, earlier, openedBefore, before⟩ := ih
    obtain ⟨more, later, openedAfter, after⟩ := carried_of_step step
    refine ⟨calls ++ more, earlier.append later, ?_, fun edgeId => ?_⟩
    · rw [List.filterMap_append, ← openedBefore, ← openedAfter]
      exact List.filterMap_append
    · rw [List.filterMap_append, List.filterMap_append, ← (before edgeId).1, ← (before edgeId).2,
        ← (after edgeId).1, ← (after edgeId).2]
      exact ⟨sent_append more, received_append more⟩

/-- Whatever else is asked of the kernel, up to `2^64` creations of channels an edge delivers what
was sent on it once and in order, and an open channel holds what is still to be received. -/
theorem delivery (run : Run (Step N hasher) (.new cap) history kernel)
    (few : (history.filterMap openedThrough).length ≤ 18446744073709551616) :
    (∀ edgeId, history.filterMap (receivedThrough edgeId) <+:
      history.filterMap (sentThrough edgeId)) ∧
    ∀ i channel, kernel.ipc.queues i = some channel → ∃ waiting,
      channel.queue.Queued defaultIpcQueueSize waiting ∧
      history.filterMap (sentThrough channel.edgeId) =
        history.filterMap (receivedThrough channel.edgeId) ++ waiting := by
  obtain ⟨calls, through, opened, same⟩ := carried_of_run run
  have delivered := @IpcManager.delivered_of_run defaultMaxIpcChannels 4 _ _ through (opened ▸ few)
  simp only [← (same _).1, ← (same _).2]
  exact ⟨delivered.inOrder, fun i channel held => (delivered.served i channel held).queued⟩

theorem delivery_openedPair : ∃ kernel, Run (Step 256 sampleHasher) (.new .new)
      (openedPair ++ [(.ipcSend 1 strayMessage ⟨1⟩, .ok .done)]) kernel ∧
    ∀ i channel, kernel.ipc.queues i = some channel → channel.edgeId = 1 →
      channel.queue.Queued defaultIpcQueueSize [strayMessage] := by
  obtain ⟨_, run, _, kernel, step, _⟩ := openedPair_run
  refine ⟨kernel, run.snoc step, fun i channel held first => ?_⟩
  obtain ⟨waiting, queued, all⟩ := (delivery (run.snoc step) (by decide)).2 i channel held
  rw [first] at all
  obtain rfl : [strayMessage] = waiting := all
  exact queued

end Kernel

end Rvm
