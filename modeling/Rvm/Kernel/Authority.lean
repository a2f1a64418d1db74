import Rvm.Kernel.Merge

/-!
Owns the authority of the checked operations over runs of the kernel. The security gate
decides on the fields of the token that the caller passes, and the capability manager is not
asked.
-/

namespace Rvm

open Cap Coherence Foundation Partition Sched Security Witness

/-- The operation behind a checked call can be carried out: there is room for a
partition, or the sender's channel has room for a message. -/
def KernelCall.Feasible (kernel : Kernel) : KernelCall → Prop
  | .checkedCreatePartition _ _ => kernel.partitions.count < maxPartitions
  | .checkedIpcSend edgeId msg _ =>
    ∃ i channel, kernel.ipc.find defaultMaxIpcChannels edgeId = some (i, channel) ∧
      channel.source = msg.sender ∧ channel.queue.count < defaultIpcQueueSize
  | _ => False

namespace Kernel

/-- The token of a capability that is live in the manager, at its current epoch
and with the type and right that the checked operations require. -/
structure Live (kernel : Kernel) (token : CapToken) : Prop where
  held : ∃ index generation slot,
    kernel.capManager.table.lookup defaultCapCapacity index generation = .ok slot ∧
      slot.token = token
  epoch : token.epoch = kernel.capManager.epoch
  capType : token.capType = .partition
  rights : token.hasRights .write = true

/-- What the code asks of a checked call. -/
structure Accepts (kernel : Kernel) (call : KernelCall) (token : CapToken) : Prop where
  booted : kernel.booted = true
  capType : token.capType = .partition
  rights : token.hasRights .write = true
  feasible : call.Feasible kernel

def Sanctioned (kernel : Kernel) (call : KernelCall) (token : CapToken) : Prop :=
  kernel.booted = false ∨ token.capType ≠ .partition ∨ token.hasRights .write = false ∨
    ¬ call.Feasible kernel ∨ kernel.Live token

variable {N : Nat} {hasher : ChainHasher} {kernel next : Kernel}

theorem sanctioned_iff {call : KernelCall} {token : CapToken} :
    kernel.Sanctioned call token ↔ (kernel.Accepts call token → kernel.Live token) := by
  constructor
  · rintro (unbooted | otherType | weak | stuck | live) accepts
    · exact absurd accepts.booted (by rw [unbooted]; exact Bool.false_ne_true)
    · exact absurd accepts.capType otherType
    · exact absurd accepts.rights (by rw [weak]; exact Bool.false_ne_true)
    · exact absurd accepts.feasible stuck
    · exact live
  · intro lives
    by_contra unsanctioned
    unfold Sanctioned at unsanctioned
    push Not at unsanctioned
    obtain ⟨booted, capType, rights, feasible, dead⟩ := unsanctioned
    exact dead (lives ⟨by simpa using booted, capType, by simpa using rights, feasible⟩)

theorem accepts_iff {call : KernelCall} {token : CapToken} :
    kernel.Accepts call token ↔ kernel.booted = true ∧
      (token.capType = .partition ∧ token.hasRights .write = true) ∧ call.Feasible kernel :=
  ⟨fun accepts => ⟨accepts.booted, ⟨accepts.capType, accepts.rights⟩, accepts.feasible⟩,
    fun ⟨booted, ⟨capType, rights⟩, feasible⟩ => ⟨booted, capType, rights, feasible⟩⟩

theorem writeRequest_check {token : CapToken} {action : ActionKind} {targetObjectId : Nat} :
    (∃ tier, (writeRequest token action targetObjectId).check = .ok tier) ↔
      token.capType = .partition ∧ token.hasRights .write = true := by
  unfold GateRequest.check writeRequest
  dsimp only
  by_cases capType : token.capType = .partition
  · rw [if_neg (not_not.mpr capType)]
    cases rights : token.hasRights .write with
    | false => simp
    | true => simp [capType]
  · rw [if_pos capType]
    simp [capType]

theorem send_ok_iff {ipc : IpcManager} {maxEdges queueSize edgeId : Nat} {msg : IpcMessage} :
    (ipc.send maxEdges queueSize edgeId msg msg.sender).1 = .ok () ↔
      ∃ i channel, ipc.find maxEdges edgeId = some (i, channel) ∧ channel.source = msg.sender ∧
        channel.queue.count < queueSize := by
  unfold IpcManager.send
  rw [if_neg (not_not.mpr rfl)]
  cases found : ipc.find maxEdges edgeId with
  | none => simp
  | some held =>
    obtain ⟨i, channel⟩ := held
    dsimp only
    by_cases source : channel.source = msg.sender
    · rw [if_neg (not_not.mpr source)]
      unfold IpcManager.deliver MessageQueue.send
      by_cases full : channel.queue.count ≥ queueSize
      · simp [full, Nat.not_lt.mpr full]
      · simp [full, source, Nat.not_le.mp full]
    · simp [source]

theorem createPartition_ok_iff (consistent : kernel.subsystems.Consistent)
    (config : PartitionConfig) :
    (∃ id, (kernel.createPartition N hasher config).1 = .ok id) ↔
      kernel.booted = true ∧ kernel.partitions.count < maxPartitions := by
  unfold createPartition
  cases booted : kernel.booted with
  | false => simp
  | true =>
    by_cases room : kernel.partitions.count < maxPartitions
    · obtain ⟨⟨id, partitions⟩, created⟩ := PartitionManager.Counted.create_ok consistent.counted
        room .agent config.vcpuCount kernel.scheduler.currentEpoch
      have sameTable : kernel.subsystems.partitions = kernel.partitions := rfl
      rw [sameTable] at created
      rw [created]
      simp [room]
    · unfold PartitionManager.create
      simp [room, Nat.not_lt.mp room]

theorem ipcSend_ok_iff (consistent : kernel.subsystems.Consistent) (edgeId : Nat)
    (msg : IpcMessage) :
    (∃ after, kernel.ipcSend N hasher edgeId msg msg.sender = some (.ok (), after)) ↔
      kernel.booted = true ∧ ∃ i channel,
        kernel.ipc.find defaultMaxIpcChannels edgeId = some (i, channel) ∧
          channel.source = msg.sender ∧ channel.queue.count < defaultIpcQueueSize := by
  rw [← send_ok_iff]
  unfold ipcSend
  cases booted : kernel.booted with
  | false => simp
  | true =>
    obtain ⟨_, _, recorded, _⟩ := CoherenceEngine.Sound.recordCommunication consistent.sound
      msg.sender msg.receiver 1
    have sameEngine : kernel.subsystems.coherence = kernel.coherence := rfl
    rw [sameEngine] at recorded
    cases sent : (kernel.ipc.send defaultMaxIpcChannels defaultIpcQueueSize edgeId msg
      msg.sender).1 with
    | error e => simp [sent]
    | ok done => simp [sent, recorded]

theorem of_replied_ok {α : Type} {reply : α → KernelReply} {result : Except RvmError α × Kernel}
    {answer : KernelReply} (answered : replied reply result = (.ok answer, next)) :
    ∃ value, result.1 = .ok value ∧ result.2 = next := by
  obtain ⟨outcome, after⟩ := result
  cases outcome with
  | error e => cases (Prod.mk.inj answered).1
  | ok value => exact ⟨value, rfl, (Prod.mk.inj answered).2⟩

theorem checkedCreatePartition_ok_iff (consistent : kernel.subsystems.Consistent)
    (config : PartitionConfig) (token : CapToken) :
    (∃ id, (kernel.checkedCreatePartition N hasher config token).1 = .ok id) ↔
      kernel.Accepts (.checkedCreatePartition config token) token := by
  rw [accepts_iff, ← @writeRequest_check token .partitionCreate 0]
  unfold checkedCreatePartition
  cases booted : kernel.booted with
  | false => simp
  | true =>
    rcases @gated_cases N hasher kernel (writeRequest token .partitionCreate 0) with
      ⟨e, refused, decided⟩ | ⟨response, tier, allowed, decided⟩
    · simp [decided, refused]
    · -- the record of the gate leaves the partition table as it was
      have created := @createPartition_ok_iff N hasher (kernel.emit N hasher
        ((writeRequest token .partitionCreate 0).allowed tier)) consistent config
      have stillBooted : (kernel.emit N hasher
          ((writeRequest token .partitionCreate 0).allowed tier)).booted = true := booted
      simp only [stillBooted, true_and] at created
      simp only [decided, allowed, Bool.true_eq_false, if_false, created, true_and]
      exact ⟨fun room => ⟨⟨tier, rfl⟩, room⟩, fun allows => allows.2⟩

theorem checkedIpcSend_ok_iff (consistent : kernel.subsystems.Consistent) (edgeId : Nat)
    (msg : IpcMessage) (token : CapToken) :
    (∃ after, kernel.checkedIpcSend N hasher edgeId msg token = some (.ok (), after)) ↔
      kernel.Accepts (.checkedIpcSend edgeId msg token) token := by
  rw [accepts_iff, ← @writeRequest_check token .ipcSend msg.receiver.asU32]
  unfold checkedIpcSend
  cases booted : kernel.booted with
  | false => simp
  | true =>
    rcases @gated_cases N hasher kernel (writeRequest token .ipcSend msg.receiver.asU32) with
      ⟨e, refused, decided⟩ | ⟨response, tier, allowed, decided⟩
    · simp [decided, refused]
    · have sent := @ipcSend_ok_iff N hasher (kernel.emit N hasher
        ((writeRequest token .ipcSend msg.receiver.asU32).allowed tier)) consistent edgeId msg
      have stillBooted : (kernel.emit N hasher
          ((writeRequest token .ipcSend msg.receiver.asU32).allowed tier)).booted = true := booted
      simp only [stillBooted, true_and] at sent
      simp only [decided, allowed, Bool.true_eq_false, if_false, sent, true_and]
      exact ⟨fun room => ⟨⟨tier, rfl⟩, room⟩, fun allows => allows.2⟩

theorem checked_ok_iff (consistent : kernel.subsystems.Consistent) {call : KernelCall}
    {token : CapToken} (presents : call.presents = some token) :
    (∃ reply next, Step N hasher kernel (call, .ok reply) next) ↔ kernel.Accepts call token := by
  cases call with
  | checkedCreatePartition config presented =>
    obtain rfl := Option.some.inj presents
    rw [← @checkedCreatePartition_ok_iff N hasher kernel consistent config presented]
    constructor
    · rintro ⟨reply, next, fuel, returned⟩
      obtain ⟨id, created, -⟩ := of_replied_ok (Option.some.inj returned)
      exact ⟨id, created⟩
    · rintro ⟨id, created⟩
      refine ⟨.partition id, (kernel.checkedCreatePartition N hasher config presented).2, 0, ?_⟩
      rw [apply, replied, created]
      rfl
  | checkedIpcSend edgeId msg presented =>
    obtain rfl := Option.some.inj presents
    rw [← @checkedIpcSend_ok_iff N hasher kernel consistent edgeId msg presented]
    constructor
    · rintro ⟨reply, next, fuel, returned⟩
      obtain ⟨result, sent, same⟩ := Option.map_eq_some_iff.mp returned
      obtain ⟨id, done, -⟩ := of_replied_ok same
      exact ⟨result.2, sent.trans (congrArg some (Prod.ext done rfl))⟩
    · rintro ⟨after, sent⟩
      refine ⟨.done, after, 0, ?_⟩
      rw [apply, sent]
      rfl
  | _ => cases presents

theorem Effect.capManager {label : KernelCall × KernelOutcome} (effect : Effect kernel label next) :
    next.capManager = kernel.capManager ∨
      ∃ label, CapabilityManager.Step defaultCapCapacity kernel.capManager label
        next.capManager := by
  cases effect with
  | managed step same => exact .inr ⟨_, step⟩
  | idle _ same | ticked _ _ _ _ same | messaged _ _ _ same | registered _ _ _ _ same
  | forgot _ _ _ _ same | enqueued _ _ same | switched same | degraded _ same | opened _ _ _ same
  | leased _ same | equipped _ _ same => exact .inl (congrArg Subsystems.capManager same)

theorem spent_of_step {id : Nat} {label : KernelCall × KernelOutcome}
    (consistent : kernel.subsystems.Consistent) (spent : kernel.capManager.Spent id)
    (step : Step N hasher kernel label next) : next.capManager.Spent id := by
  rcases (effect_of_step step).capManager with same | ⟨_, managed⟩
  · rw [same]
    exact spent
  · exact spent.carries (CapabilityManager.carries_of_step consistent.named.table managed)

theorem spent_of_run {id : Nat} {history : List (KernelCall × KernelOutcome)}
    (consistent : kernel.subsystems.Consistent) (spent : kernel.capManager.Spent id)
    (run : Run (Step N hasher) kernel history next) : next.capManager.Spent id := by
  have kept : next.subsystems.Consistent ∧ next.capManager.Spent id :=
    @Run.stateInvariant _ _ _ _ _ _
      (fun here => here.subsystems.Consistent ∧ here.capManager.Spent id) ⟨consistent, spent⟩
      (fun _ _ _ holds step => ⟨(effect_of_step step).consistent holds.1,
        spent_of_step holds.1 holds.2 step⟩) run
  exact kept.2

theorem not_live_of_spent {token : CapToken} (spent : kernel.capManager.Spent token.id) :
    ¬ kernel.Live token := by
  rintro ⟨⟨index, generation, slot, found, rfl⟩, -, -, -⟩
  obtain ⟨_, slotEq, used, _⟩ := CapabilityTable.lookup_eq_ok.mp found
  refine spent.absent index ?_ (congrArg (fun s => s.token.id) slotEq)
  rw [CapabilityTable.Used, slotEq]
  exact used

def revocation (index generation count : Nat) : KernelCall × KernelOutcome :=
  (.capManagerMut (.revoke index generation), .ok (.capability (.ok (.revoked count))))

theorem not_live_of_revocation {index generation count : Nat} {slot : CapSlot}
    {rest : List (KernelCall × KernelOutcome)} {after : Kernel}
    (consistent : kernel.subsystems.Consistent)
    (found : kernel.capManager.table.lookup defaultCapCapacity index generation = .ok slot)
    (step : Step N hasher kernel (revocation index generation count) next)
    (run : Run (Step N hasher) next rest after) : ¬ after.Live slot.token := by
  have revoked : CapabilityManager.Step defaultCapCapacity kernel.capManager
      (.revoke index generation, .ok (.revoked count)) next.capManager := by
    obtain ⟨fuel, returned⟩ := step
    obtain ⟨result, managed, same⟩ := Option.map_eq_some_iff.mp returned
    refine ⟨fuel, ?_⟩
    obtain ⟨outcome, manager⟩ := result
    cases same
    exact managed
  exact not_live_of_spent (spent_of_run ((effect_of_step step).consistent consistent)
    (consistent.named.spent_of_revoke found revoked) run)

/-- A checked call succeeds with live tokens only, and is refused ever after a revocation, if and
only if it is sanctioned. -/
theorem checkedAuthority (N : Nat) (hasher : ChainHasher) (cap : CapManagerConfig)
    (history : List (KernelCall × KernelOutcome)) (kernel : Kernel)
    (run : Run (Step N hasher) (.new cap) history kernel) :
    (∀ call token, call.presents = some token →
        ((∀ reply next, Step N hasher kernel (call, .ok reply) next → kernel.Live token) ↔
          kernel.Sanctioned call token)) ∧
      ∀ index generation count slot revoked rest later,
        kernel.capManager.table.lookup defaultCapCapacity index generation = .ok slot →
        Step N hasher kernel (revocation index generation count) revoked →
        Run (Step N hasher) revoked rest later →
        ∀ call, call.presents = some slot.token →
          ((∀ reply next, ¬ Step N hasher later (call, .ok reply) next) ↔
            later.Sanctioned call slot.token) := by
  constructor
  · intro call token presents
    rw [sanctioned_iff,
      ← @checked_ok_iff N hasher kernel (consistent_of_run run) call token presents]
    exact ⟨fun lives ⟨reply, next, step⟩ => lives reply next step,
      fun lives reply next step => lives ⟨reply, next, step⟩⟩
  · intro index generation count slot revoked rest later found step laterRun call presents
    have consistent := consistent_of_run (Run.append (run.snoc step) laterRun)
    have dead := not_live_of_revocation (consistent_of_run run) found step laterRun
    rw [sanctioned_iff, ← @checked_ok_iff N hasher later consistent call slot.token presents]
    exact ⟨fun refused ⟨reply, next, accepted⟩ => absurd accepted (refused reply next),
      fun lives reply next accepted => dead (lives ⟨reply, next, accepted⟩)⟩

def rootGranted : List (KernelCall × KernelOutcome) :=
  [(.boot, .ok .done),
    (.capManagerMut (.createRootCapability .partition .write 0 ⟨1⟩),
      .ok (.capability (.ok (.handle 0 1))))]

/-- The token of the capability granted is live; after a revocation of the
capability the checked creation still succeeds. -/
theorem rootGranted_revoked :
    ∃ granted kernel next slot, Run (Step 256 sampleHasher) (.new .new) rootGranted granted ∧
      granted.capManager.table.lookup defaultCapCapacity 0 1 = .ok slot ∧
      slot.token = sampleToken ∧ granted.Live sampleToken ∧
      Step 256 sampleHasher granted (revocation 0 1 1) kernel ∧
      Step 256 sampleHasher kernel
        (.checkedCreatePartition ⟨1⟩ sampleToken, .ok (.partition ⟨1⟩)) next := by
  have run : Run (Step 256 sampleHasher) (.new .new) rootGranted _ :=
    .cons ⟨0, rfl⟩ <| .single ⟨0, rfl⟩
  exact ⟨_, _, _, _, run, rfl, rfl, ⟨⟨0, 1, _, rfl, rfl⟩, rfl, rfl, rfl⟩, ⟨2, rfl⟩, ⟨0, rfl⟩⟩

theorem checkedAuthority_rootGranted :
    ∃ kernel, Run (Step 256 sampleHasher) (.new .new) rootGranted kernel ∧
      ∀ reply next,
        Step 256 sampleHasher kernel (.checkedCreatePartition ⟨1⟩ sampleToken, .ok reply) next →
        kernel.Live sampleToken := by
  obtain ⟨kernel, _, _, _, run, _, _, live, _⟩ := rootGranted_revoked
  exact ⟨kernel, run, ((checkedAuthority 256 sampleHasher .new rootGranted kernel run).1
    (.checkedCreatePartition ⟨1⟩ sampleToken) sampleToken rfl).mpr
      (.inr (.inr (.inr (.inr live))))⟩

/-- After boot a token that the manager never issued passes; so does the token of
a capability that was revoked. -/
theorem checkedAuthority_forged :
    (∃ kernel next, Run (Step 256 sampleHasher) (.new .new) [(.boot, .ok .done)] kernel ∧
      Step 256 sampleHasher kernel
        (.checkedCreatePartition ⟨1⟩ sampleToken, .ok (.partition ⟨1⟩)) next ∧
      ¬ kernel.Live sampleToken) ∧
    ∃ granted kernel next, Run (Step 256 sampleHasher) (.new .new) rootGranted granted ∧
      granted.Live sampleToken ∧ Step 256 sampleHasher granted (revocation 0 1 1) kernel ∧
      Step 256 sampleHasher kernel
        (.checkedCreatePartition ⟨1⟩ sampleToken, .ok (.partition ⟨1⟩)) next ∧
      ¬ kernel.Live sampleToken := by
  constructor
  · have booted : Run (Step 256 sampleHasher) (.new .new) [(.boot, .ok .done)] _ :=
      Run.single ⟨0, rfl⟩
    refine ⟨_, _, booted, ⟨0, rfl⟩, ?_⟩
    rintro ⟨⟨index, generation, slot, found, -⟩, -, -, -⟩
    obtain ⟨_, slotEq, used, _⟩ := CapabilityTable.lookup_eq_ok.mp found
    exact used (congrArg CapSlot.generation slotEq).symm
  · obtain ⟨granted, kernel, next, slot, run, found, same, live, step, created⟩ :=
      rootGranted_revoked
    refine ⟨granted, kernel, next, run, live, step, created, ?_⟩
    rw [← same]
    exact not_live_of_revocation (consistent_of_run run) found step .nil

end Kernel

end Rvm
