import Rvm.Context.Emission
import Rvm.Service.ReceiptResume

/-!
Owns what a runtime behind a receipt drainer keeps in its ring: every record that no
persisted receipt covers, as long as each seal that may fail leaves room for the next
decision.
-/

namespace Rvm.Service

open Option

open Context ContextRuntime DurableReceiptStore Foundation Foundation.Call Witness List WitnessLog

namespace ReceiptDrainer

variable {ρ κ : Type} {parameters : RuntimeParameters ρ κ} {here next : Drained ρ κ}

/-! ### The state behind a drainer -/

structure Works (parameters : RuntimeParameters ρ κ) (here : Drained ρ κ) (call : SealCall) :
    Prop where
  granted : ∃ authorized mid, (authorize parameters call.request
    .sealReceipt).runFrom here.runtime = some (.ok authorized, mid)
  identity : call.request.target.revision.map Revision.bytes = some call.commitments.rvfIdentity
  signs : ∀ digest, call.signer.verify digest (call.signer.sign digest) = .ok ()
  commits : call.commits = true
  knows : ∀ cursor last,
    DurableReceiptStore.cursor.runFrom here.drainer.store =
      some (.ok (some cursor), here.drainer.store) →
    (receipt (cursor.nextEpochId - 1)).runFrom here.drainer.store =
      some (.ok (some last), here.drainer.store) →
    ∃ verified, last.verify parameters.witness.sha256 call.signer = .ok verified

/-- The cursor of the runtime is the stored one, and the ring has room for one more
decision. -/
structure Drains (parameters : RuntimeParameters ρ κ) (here : Drained ρ κ)
    (receipts : List (VerifiedContextEpochReceipt parameters.witness.sha256))
    (first second : List WitnessCall) : Prop where
  anchored : Anchored parameters here.runtime receipts first second
  stored : StoredChain parameters.witness.sha256 parameters.witness.hasher
    here.drainer.store receipts
  epochs : receipts.length ≤ first.length
  timed : ∀ record ∈ here.runtime.recorded, Timed record
  room : second.length + 1 ≤ min parameters.witness.capacity maxContextEpochRecords
  threshold : 0 < here.drainer.maxUnsealed ∧
    here.drainer.maxUnsealed + 2 ≤ parameters.witness.capacity

variable {receipts : List (VerifiedContextEpochReceipt parameters.witness.sha256)}
  {first second : List WitnessCall} {runtime : ContextRuntime ρ κ}

theorem written_eq
    (anchored : Anchored parameters runtime receipts first second) :
    runtime.witness.written = first.length + second.length := by
  rw [anchored.witness, written_run, length_append]
  exact Nat.zero_add _

theorem pending_eq (anchored : Anchored parameters runtime receipts first second)
    (fits : runtime.witness.written < 18446744073709551616) :
    pending runtime = second.length := by
  rw [written_eq anchored] at fits
  have total : asU64 (first.length + second.length) = first.length + second.length :=
    Nat.mod_eq_of_lt fits
  rw [pending, anchored.witness, totalEmitted_run, length_append, total, anchored.cursor,
    @checkpoint_run parameters.witness.hasher parameters.witness.capacity first (by omega)]
  exact Nat.add_sub_cancel_left _ _

theorem resumes (anchored : Anchored parameters runtime receipts first second)
    (fits : first.length < 18446744073709551616) :
    runtime.receiptChain = resumeState (StoredChain.storedCursor
      parameters.witness.sha256 parameters.witness.hasher receipts) := by
  have cursor := anchored.cursor.trans
    (@checkpoint_run parameters.witness.hasher parameters.witness.capacity first fits)
  have parts : runtime.receiptChain = ⟨runtime.receiptChain.nextCheckpoint,
    runtime.receiptChain.nextEpochId, runtime.receiptChain.previousReceiptId⟩ := rfl
  rw [parts, cursor, anchored.epochs, anchored.link, StoredChain.storedCursor]
  rcases found : receipts.getLast? with _ | last
  · have empty := List.getLast?_eq_none_iff.mp found
    rw [anchored.fresh empty, empty]
    rfl
  · rw [← (anchored.last last found).2.1]
    rfl

theorem Works.previousKnown {call : SealCall} (works : Works parameters here call)
    (stored : StoredChain parameters.witness.sha256 parameters.witness.hasher
      here.drainer.store receipts) (bounded : WordHashes parameters.witness.hasher) :
    ∀ last ∈ receipts.getLast?,
      last.signed.verify parameters.witness.sha256 call.signer = .ok last := by
  intro last member
  have read := stored.cursor_spec bounded
  rcases read.outcome with ⟨cursor, _, found, rfl, position⟩ | ⟨_, _, _, impossible⟩
  · rw [mem_def.mp member, map_some] at position
    rw [position] at found
    rcases (stored.receipt_spec (receipts.length - 1)).outcome with
      ⟨receipt, _, present, rfl, same⟩ | ⟨_, _, _, impossible⟩
    · rw [← List.getLast?_eq_getElem?, mem_def.mp member, map_some] at same
      rw [same] at present
      obtain ⟨verified, known⟩ := works.knows _ _ found present
      rw [known, verified_ext (verified_signed known)]
    · exact impossible.elim
  · exact impossible.elim

/-! ### A seal -/

theorem chainHashAt_le {hasher : ChainHasher} (bounded : WordHashes hasher)
    (count : Nat) : chainHashAt hasher count ≤ u64Max := by
  cases count with
  | zero => exact Nat.zero_le _
  | succ count =>
    rw [chainHashAt_succ]
    exact bounded _ _

section Sealing

variable {call : SealCall}
  (bounded : WordHashes parameters.witness.hasher)

include bounded

theorem Drains.wellFormed (drains : Drains parameters here receipts first second)
    {request : ContextRequest} {arguments : SealArguments}
    {authorized : AuthorizedRequest} {unsigned : ContextEpochReceipt}
    {verified : VerifiedContextEpochReceipt parameters.witness.sha256} {sealTimestampNs : Nat}
    {nextCheckpoint : WitnessCheckpoint} {following : ContextRuntime ρ κ}
    (fits : here.runtime.witness.written + 2 < 18446744073709551616)
    (sealedEpoch : SealedEpoch parameters here.runtime request arguments authorized
      unsigned verified sealTimestampNs nextCheckpoint following)
    (timed : ∀ record ∈ following.recorded, Timed record) :
    verified.signed.WellFormed := by
  rw [written_eq drains.anchored] at fits
  obtain ⟨head, rest, slice, _, seals⟩ := drains.anchored.epoch sealedEpoch (by omega)
  have room := sealedEpoch.room
  rw [drains.anchored.epochs] at room
  have recorded : following.recorded = here.runtime.recorded ++
      produced parameters.witness.capacity parameters.witness.hasher here.runtime.witness
        [decisionCall parameters.witness authorized, .append
          (verified.sealRecord authorized.actor.asU32 authorized.capabilityHash sealTimestampNs)] :=
    sealedEpoch.logs.appends.recorded
  have among : ∀ record ∈ head :: rest, record ∈ following.recorded := by
    intro record member
    rw [recorded, drains.anchored.recorded, drains.anchored.witness, ← produced_append,
      show [decisionCall parameters.witness authorized, WitnessCall.append
        (verified.sealRecord authorized.actor.asU32 authorized.capabilityHash sealTimestampNs)] =
        [decisionCall parameters.witness authorized] ++ [WitnessCall.append
          (verified.sealRecord authorized.actor.asU32 authorized.capabilityHash sealTimestampNs)]
        from rfl, ← append_assoc, append_assoc first, produced_append,
      produced_append, slice]
    exact mem_append_left _ (mem_append_right _ member)
  have bounds := timestampBounds_timed fun record member => timed record (among record member)
  rw [← seals.bounds] at bounds
  rw [sealedEpoch.signed]
  refine SignedContextEpochReceipt.wellFormed_sign seals _ (by omega) ?_ bounds.1 bounds.2
  rw [drains.anchored.cursor,
    @checkpoint_run parameters.witness.hasher parameters.witness.capacity first (by omega)]
  exact chainHashAt_le bounded _

/-- What a seal leaves that persisted an epoch: the receipts cover the decision. -/
structure Persisted (parameters : RuntimeParameters ρ κ) (here next : Drained ρ κ) : Prop where
  drains : ∃ receipts first second, Drains parameters next receipts first second ∧
    first.length = here.runtime.recorded.length + 1
  total : next.runtime.witness.written = here.runtime.witness.written + 2

/-- What a seal leaves that failed: at most one record more. -/
structure Unsealed (parameters : RuntimeParameters ρ κ) (here next : Drained ρ κ) : Prop where
  emitted : Emitted parameters 1 here.runtime next.runtime
  drainer : next.drainer = here.drainer

theorem sealEpoch_spec (clocked : ∀ clock, (parameters.timestampNs clock).1 ≤ u64Max)
    (drains : Drains parameters here receipts first second)
    (fits : here.runtime.witness.written + 2 < 18446744073709551616) :
    (sealEpoch parameters call).Ensures here (fun _ next => Persisted parameters here next)
      fun _ next => Unsealed parameters here next := by
  unfold sealEpoch
  simp only [ensures_bind, ensures_get, ensures_onPart, ensures_translate, ensures_orPanic,
    ensures_set, ensures_pure]
  apply ((sealEpochTransactional_spec _ _).both
    ((seal_emits clocked _ _).both (seal_checked _ _))).mono
  · rintro ⟨signed, checkpoint⟩ following
      ⟨⟨authorized, unsigned, verified, sealTimestampNs, sealedEpoch, rfl⟩, ⟨records, logs, timed⟩,
        _, persisted⟩
    obtain ⟨⟨outcome, store⟩, appended, rfl⟩ := map_eq_some_iff.mp persisted
    refine ⟨_, appended, ?_⟩
    obtain ⟨⟨result, after⟩, ran, reported⟩ := map_eq_some_iff.mp appended
    cases result with
    | error reason => cases reported
    | ok value =>
      cases reported
      have spec := @appendVerified_spec parameters.witness.sha256
        parameters.witness.hasher here.drainer.store call.commits verified.signed
        (.fromChainState following.receiptChain) call.signer
      rw [Ensures, ran] at spec
      obtain ⟨same, signed, append⟩ := spec
      obtain rfl := verified_ext signed
      have total := written_eq drains.anchored
      have recorded : here.runtime.recorded.length = first.length + second.length := by
        rw [drains.anchored.recorded, produced_length, length_append]
      have timedAfter := logs.timed drains.timed timed
      have long : following.recorded.length = here.runtime.recorded.length + 2 := by
        rw [sealedEpoch.logs.appends.recorded, length_append, produced_length]
        rfl
      have anchored := drains.anchored.sealed sealedEpoch (by omega)
      constructor
      · refine ⟨_, _, _, ⟨anchored, ?_, ?_, timedAfter, ?_, drains.threshold⟩, ?_⟩
        · exact drains.stored.appended bounded
            (drains.wellFormed bounded fits sealedEpoch timedAfter) append
        · have few := drains.epochs
          rw [length_append, length_append, length_append, length_singleton]
          show _ ≤ _ + (_ + 1)
          omega
        · have wide := drains.threshold.2
          have positive := drains.threshold.1
          show 2 ≤ _
          unfold maxContextEpochRecords
          omega
        · rw [length_append, length_append, recorded, Nat.add_assoc]
          rfl
      · rw [written_eq anchored, total, length_append, length_append]
        show _ + (_ + 1) + 1 = _
        omega
  · rintro _ following ⟨_, emitted, _⟩
    exact ⟨emitted, rfl⟩

omit bounded in
theorem verify_sign {sha256 : List UInt8 → Octets 32} {signer : WitnessSigner}
    (signs : ∀ digest, signer.verify digest (signer.sign digest) = .ok ())
    (receipt : ContextEpochReceipt) :
    ∃ verified, (receipt.sign sha256 signer).verify sha256 signer = .ok verified := by
  unfold SignedContextEpochReceipt.verify
  split
  · rename_i other
    exact absurd rfl other
  · split
    · rename_i reason refused
      rw [ContextEpochReceipt.sign, signs] at refused
      cases refused
    · exact ⟨_, rfl⟩

omit bounded in
theorem Drains.authorized (drains : Drains parameters here receipts first second)
    (fits : here.runtime.witness.written + 2 < 18446744073709551616)
    {request : ContextRequest} {authorized : AuthorizedRequest} {mid : ContextRuntime ρ κ}
    (granted : (authorize parameters request .sealReceipt).runFrom here.runtime =
      some (.ok authorized, mid)) (commitments : EpochCommitments) :
    authorized.target = request.target ∧ mid.receiptChain.nextEpochId = receipts.length ∧
      ∃ unsigned nextCheckpoint, ContextEpochReceipt.sealFromLog parameters.witness.sha256
          parameters.witness.capacity parameters.witness.hasher mid.receiptChain.nextEpochId
          mid.witness mid.receiptChain.nextCheckpoint
          (List.replicate parameters.witness.capacity .zeroed) mid.receiptChain.previousReceiptId
          commitments = .ok (unsigned, nextCheckpoint) ∧
        StoredChain.SealedBehind parameters.witness.hasher
          (resumeState (StoredChain.storedCursor parameters.witness.sha256
            parameters.witness.hasher receipts)) (first.length + (second.length + 1)) unsigned
          nextCheckpoint := by
  have held : (authorize parameters request .sealReceipt).Ensures here.runtime _ _ :=
    authorize_spec (.sealEpoch request ⟨[], commitments,
      ⟨.zero 32, fun _ => .zero 64, fun _ _ => .ok ()⟩, fun _ _ => none⟩)
  rw [Ensures, granted] at held
  have anchored : Anchored parameters mid receipts first _ :=
    drains.anchored.kept held.logs.appends held.receiptChain
  refine ⟨held.minted.target, anchored.epochs, ?_⟩
  generalize decided : second ++ List.map WitnessCall.append
    [authorized.recordOf parameters.witness .proofVerifiedP1] = epoch at anchored
  have long : epoch.length = second.length + 1 := by
    rw [← decided, length_append]
    rfl
  have nonempty : epoch ≠ [] := by
    intro none
    rw [none] at long
    cases long
  have total := written_eq drains.anchored
  obtain ⟨inRing, short⟩ := Nat.le_min.mp drains.room
  have logged := @WitnessLog.logged_produced parameters.witness.capacity parameters.witness.hasher
    first (by omega)
  obtain ⟨unsigned, head, rest, slice, seals, sealing⟩ :=
    @ContextEpochReceipt.sealFromLog_appended parameters.witness.sha256 parameters.witness.hasher
      parameters.witness.capacity _ _ logged epoch nonempty
      (by rw [produced_length]; omega) (by omega) (by omega)
      (List.replicate parameters.witness.capacity .zeroed)
      (by rw [length_replicate]; omega) mid.receiptChain.nextEpochId
      mid.receiptChain.previousReceiptId commitments
  rw [← anchored.cursor, ← run_append] at sealing
  rw [← anchored.witness] at sealing
  rw [← anchored.cursor] at seals
  have behind := StoredChain.sealedBehind_of_seals (by omega) anchored.cursor
    slice seals
  rw [resumes anchored (by omega), ← anchored.witness, length_append, long] at behind
  exact ⟨unsigned, _, sealing, behind⟩

theorem sealEpoch_works (clocked : ∀ clock, (parameters.timestampNs clock).1 ≤ u64Max)
    (drains : Drains parameters here receipts first second)
    (fits : here.runtime.witness.written + 2 < 18446744073709551616)
    (works : Works parameters here call) :
    (sealEpoch parameters call).Ensures here (fun _ next => Persisted parameters here next)
      fun _ _ => False := by
  have total := written_eq drains.anchored
  obtain ⟨authorized, mid, granted⟩ := works.granted
  obtain ⟨target, epochs, unsigned, nextCheckpoint, sealing, behind⟩ :=
    drains.authorized fits granted call.commitments
  have few := drains.epochs
  have room : receipts.length + 1 ≤ u64Max := by
    unfold u64Max
    omega
  -- the store accepts the epoch: the signer knows what it signs, and the last stored receipt
  obtain ⟨verified, verifies⟩ := @verify_sign parameters.witness.sha256 call.signer works.signs
    unsigned
  have signed := verified_signed verifies
  have below : first.length + (second.length + 1) ≤ u64Max := by
    unfold u64Max
    omega
  have accepted := drains.stored.behind_accepted bounded below room
    (show StoredChain.SealedBehind _ _ _ verified.signed.receipt _ by
      rw [signed]
      exact behind) (signed.symm ▸ verifies) (works.previousKnown drains.stored bounded)
  rw [signed] at accepted
  have persists : (append parameters here.drainer.store call
      (unsigned.sign parameters.witness.sha256 call.signer)
      ⟨nextCheckpoint, mid.receiptChain.nextEpochId + 1,
        (unsigned.sign parameters.witness.sha256 call.signer).receiptId
          parameters.witness.sha256⟩).map Prod.fst = some (.ok ()) := by
    rw [append, works.commits, epochs]
    rcases accepted.outcome with ⟨_, store, ran, _⟩ | ⟨_, _, _, impossible⟩
    · rw [ran]
      rfl
    · exact impossible.elim
  have succeeds : (sealEpochTransactional parameters call.request
      (sealArguments parameters here.drainer.store call)).Ensures here.runtime (fun _ _ => True)
      fun _ _ => False := by
    apply (seal_succeeds granted (epochs ▸ room) _ sealing verifies persists).weaken
    exact fun _ _ _ => trivial
    · rw [target]
      exact works.identity
  have returns : (sealEpoch parameters call).Ensures here (fun _ _ => True) fun _ _ => False := by
    unfold sealEpoch
    simp only [ensures_bind, ensures_get, ensures_onPart, ensures_translate, ensures_orPanic,
      ensures_set, ensures_pure]
    apply (succeeds.both (seal_checked _ _)).mono
    · rintro _ following ⟨_, _, persisted⟩
      obtain ⟨present, appended, _⟩ := map_eq_some_iff.mp persisted
      exact ⟨present, appended, trivial⟩
    · exact fun _ _ both => both.1
  apply (returns.both (sealEpoch_spec bounded clocked drains fits)).mono
  · exact fun _ _ both => both.2
  · exact fun _ _ both => both.1

end Sealing

/-! ### Runs -/

theorem emitted_counted {most : Nat} {following : ContextRuntime ρ κ}
    (emitted : Emitted parameters most runtime following) :
    following.witness.written - runtime.witness.written ≤ most ∧
      Emitted parameters (following.witness.written - runtime.witness.written) runtime following := by
  obtain ⟨⟨records, logs, few, timed⟩, receiptChain⟩ := emitted
  have total : following.witness.written = runtime.witness.written + records.length := by
    rw [logs.appends.witness, written_run, length_map]
  exact ⟨by omega, ⟨records, logs, by omega, timed⟩, receiptChain⟩

theorem Drains.kept (drains : Drains parameters here receipts first second) {most : Nat}
    {following : ContextRuntime ρ κ}
    (emitted : Emitted parameters most here.runtime following)
    (room : second.length + most + 1 ≤ min parameters.witness.capacity maxContextEpochRecords) :
    ∃ second, Drains parameters { here with runtime := following } receipts first second ∧
      following.witness.written ≤ here.runtime.witness.written + most := by
  obtain ⟨⟨records, logs, few, timed⟩, receiptChain⟩ := emitted
  have anchored := drains.anchored.kept logs.appends receiptChain
  have long : (second ++ records.map WitnessCall.append).length = second.length + records.length := by
    rw [length_append, length_map]
  refine ⟨_, ⟨anchored, drains.stored, drains.epochs, logs.timed drains.timed timed, ?_,
    drains.threshold⟩, ?_⟩
  · rw [long]
    omega
  · rw [written_eq anchored, written_eq drains.anchored, long]
    omega

/-- The records that a request appends: its decision, and its outcome where it comes that far. -/
def appended (parameters : RuntimeParameters ρ κ) (fuel : Nat) (access : Access)
    (runtime : ContextRuntime ρ κ) : Nat :=
  ((serve parameters fuel access).runFrom runtime).elim 0 fun served =>
    served.2.witness.written - runtime.witness.written

/-- A request leaves room while an epoch has room for its records and the next
decision; a seal does while the ring and an epoch have room for two decisions, or where
it works. -/
def LeavesRoom (parameters : RuntimeParameters ρ κ) (here : Drained ρ κ) : DrainEvent → Prop
  | .requested access _ => ∀ fuel, pending here.runtime +
      appended parameters fuel access here.runtime + 1 ≤ maxContextEpochRecords
  | .sealed call _ =>
    pending here.runtime + 2 ≤ min parameters.witness.capacity maxContextEpochRecords ∨
      Works parameters here call
  | .administered => True

structure RoomyStep (parameters : RuntimeParameters ρ κ) (here : Drained ρ κ) (event : DrainEvent)
    (next : Drained ρ κ) : Prop where
  step : Step parameters here event next
  room : LeavesRoom parameters here event
  numbers : here.runtime.witness.written + 4 < 18446744073709551616

theorem admit_headroom {drainer : ReceiptDrainer} {capacity : Nat}
    (admitted : drainer.admits capacity runtime = .ok ()) : drainer.maxUnsealed ≤ capacity - 2 := by
  unfold admits at admitted
  split at admitted
  · cases admitted
  · omega

theorem admit_pending {drainer : ReceiptDrainer} {capacity : Nat}
    (admitted : drainer.admits capacity runtime = .ok ()) :
    pending runtime < drainer.maxUnsealed := by
  unfold admits at admitted
  split at admitted
  · cases admitted
  · split at admitted
    · cases admitted
    · omega

section Running

variable (bounded : WordHashes parameters.witness.hasher)
  (clocked : ∀ clock, (parameters.timestampNs clock).1 ≤ u64Max)

include bounded clocked

theorem Drains.step (drains : Drains parameters here receipts first second) {event : DrainEvent}
    (roomy : RoomyStep parameters here event next) :
    (∃ receipts first second, Drains parameters next receipts first second) ∧
      next.runtime.witness.written ≤ here.runtime.witness.written + 2 := by
  obtain ⟨step, room, numbers⟩ := roomy
  have waiting := pending_eq drains.anchored (by omega)
  cases step with
  | @requested fuel access outcome following plain admitted ran =>
    have below := admit_pending admitted
    have wide := drains.threshold.2
    have emitted : Emitted parameters 2 here.runtime following := by
      have moved := serve_emits clocked _ _ plain _ _ _ ran
      split at moved
      · exact moved.2
      · exact moved
    obtain ⟨few, counted⟩ := emitted_counted emitted
    have epoch := room fuel
    rw [appended, ran] at epoch
    dsimp only [Option.elim] at epoch
    obtain ⟨second, kept, total⟩ := drains.kept counted (by omega)
    exact ⟨⟨receipts, first, second, kept⟩, total.trans (Nat.add_le_add_left few _)⟩
  | @sealed call outcome _ ran =>
    have spec := @sealEpoch_spec _ _ _ here _ _ _ call bounded clocked drains (by omega)
    rw [Ensures, ran] at spec
    cases outcome with
    | ok cursor =>
      obtain ⟨⟨receipts, first, second, persisted, _⟩, total⟩ := spec
      exact ⟨⟨receipts, first, second, persisted⟩, total.le⟩
    | error reason =>
      obtain ⟨emitted, drainer⟩ := spec
      obtain ⟨runtime, _⟩ := next
      obtain rfl : _ = here.drainer := drainer
      rcases room with room | works
      · obtain ⟨second, kept, total⟩ := drains.kept emitted (by omega)
        exact ⟨⟨receipts, first, second, kept⟩, total.trans (Nat.le_succ _)⟩
      · have succeeds := sealEpoch_works bounded clocked drains (by omega) works
        rw [Ensures, ran] at succeeds
        exact succeeds.elim
  | administered authority =>
    have emitted : Emitted parameters 0 here.runtime
        { here.runtime with authority := authority } :=
      ⟨⟨[], ⟨rfl, (append_nil _).symm⟩, Nat.le_refl _, fun _ member => by cases member⟩, rfl⟩
    obtain ⟨second, kept, total⟩ := drains.kept emitted drains.room
    exact ⟨⟨receipts, first, second, kept⟩, total.trans (Nat.le_add_right _ _)⟩

theorem drains_run {actor : PartitionId} {authority : ContextAuthority} {resolver : ρ} {clock : κ}
    {drainer : ReceiptDrainer} {maxUnsealed : Nat} (created : new .opened maxUnsealed = .ok drainer)
    (headroom : drainer.maxUnsealed ≤ parameters.witness.capacity - 2) {events : List DrainEvent}
    (run : Run (RoomyStep parameters)
      ⟨withClock actor authority resolver clock, drainer⟩ events here) :
    (∃ receipts first second, Drains parameters here receipts first second) ∧
      here.runtime.witness.written + 2 < 18446744073709551616 := by
  induction run with
  | nil =>
    unfold new at created
    split at created
    · cases created
    · rename_i positive
      obtain rfl := Except.ok.inj created
      have wide : maxUnsealed ≤ parameters.witness.capacity - 2 := headroom
      refine ⟨⟨[], [], [], ⟨anchored_withClock _ _ _ _,
        storedChain_opened, Nat.le_refl _, fun _ member => (not_mem_nil member).elim, ?_,
        ?_⟩⟩, ?_⟩
      · show 1 ≤ _
        unfold maxContextEpochRecords
        omega
      · show 0 < maxUnsealed ∧ maxUnsealed + 2 ≤ _
        omega
      · show 0 + 2 < _
        omega
  | snoc _ roomy ih =>
    obtain ⟨⟨receipts, first, second, drains⟩, _⟩ := ih
    obtain ⟨kept, total⟩ := drains.step bounded clocked roomy
    have numbers := roomy.numbers
    exact ⟨kept, by omega⟩

end Running

/-- No record that no persisted receipt covers is lost: each is in the ring, and the
next seal that works covers them all. -/
structure Covered (parameters : RuntimeParameters ρ κ) (here : Drained ρ κ) : Prop where
  persisted : ∃ receipts, StoredChain parameters.witness.sha256
      parameters.witness.hasher here.drainer.store receipts ∧
    UnbrokenChain parameters.witness.sha256 parameters.witness.hasher here.runtime.recorded
      here.runtime.receiptChain.nextCheckpoint.nextSequence receipts
  retained : ∀ record ∈
      here.runtime.recorded.drop here.runtime.receiptChain.nextCheckpoint.nextSequence,
    ∃ i, i < parameters.witness.capacity ∧ here.runtime.witness.records i = record
  recovers : ∀ call, Works parameters here call → (sealEpoch parameters call).Ensures here
    (fun _ next => ∃ receipts, StoredChain parameters.witness.sha256
        parameters.witness.hasher next.drainer.store receipts ∧
      UnbrokenChain parameters.witness.sha256 parameters.witness.hasher next.runtime.recorded
        (here.runtime.recorded.length + 1) receipts)
    fun _ _ => False

/-- In every run whose steps leave room, no unsealed record is lost. -/
theorem receiptBackpressure (parameters : RuntimeParameters ρ κ)
    (bounded : ∀ chainHash sequence,
      parameters.witness.hasher.computeChainHash chainHash sequence ≤ u64Max)
    (clocked : ∀ clock, (parameters.timestampNs clock).1 ≤ u64Max)
    (actor : PartitionId) (authority : ContextAuthority) (resolver : ρ) (clock : κ)
    (maxUnsealed : Nat) (drainer : ReceiptDrainer)
    (created : new .opened maxUnsealed = .ok drainer)
    (accepted : drainer.admits parameters.witness.capacity
      (ContextRuntime.withClock actor authority resolver clock) = .ok ())
    (events : List DrainEvent) (here : Drained ρ κ)
    (run : Run (RoomyStep parameters)
      ⟨ContextRuntime.withClock actor authority resolver clock, drainer⟩ events here) :
    Covered parameters here := by
  obtain ⟨⟨receipts, first, second, drains⟩, fits⟩ :=
    drains_run bounded clocked created (admit_headroom accepted) run
  have total := written_eq drains.anchored
  have position : here.runtime.receiptChain.nextCheckpoint.nextSequence = first.length := by
    rw [drains.anchored.cursor,
      @checkpoint_run parameters.witness.hasher parameters.witness.capacity first (by omega)]
  obtain ⟨inRing, _⟩ := Nat.le_min.mp drains.room
  constructor
  · rw [position]
    exact ⟨receipts, drains.stored, drains.anchored.chain⟩
  · intro record member
    have logged := @WitnessLog.logged_produced parameters.witness.capacity
      parameters.witness.hasher (first ++ second) (by rw [List.length_append]; omega)
    rw [← drains.anchored.witness, ← drains.anchored.recorded] at logged
    apply logged.retained (by omega) _ member
    rw [position, drains.anchored.recorded, WitnessLog.produced_length, List.length_append]
    omega
  · intro call works
    apply (sealEpoch_works bounded clocked drains fits works).weaken
    rintro _ next ⟨⟨receipts, first, second, drains, long⟩, _⟩
    rw [← long]
    exact ⟨receipts, drains.stored, drains.anchored.chain⟩

/-! ### Seals that are denied again and again -/

/-- A ring of three records, the smallest that admits a request, and a clock that
stands. -/
def drainParameters : RuntimeParameters Unit Unit where
  capabilities := 2
  grants := 2
  witness := ⟨3, ⟨fun _ _ => 0, fun _ => 0⟩, fun _ => .zero 32⟩
  verify _ _ := .error .truncated
  resolver := sampleResolver
  timestampNs _ := (0, ())

def drainedFirst : Drained Unit Unit :=
  ⟨.withClock ⟨1⟩ sampleAuthority () (), ⟨.opened, 1⟩⟩

/-- A seal that works on an empty store. -/
def sealCall : SealCall :=
  ⟨sampleRequest, sampleArguments.commitments,
    sampleArguments.signer, true⟩

theorem sealCall_works {here : Drained Unit Unit}
    (granted : ∃ authorized mid, (authorize drainParameters sealCall.request
      .sealReceipt).runFrom here.runtime = some (.ok authorized, mid))
    (empty : here.drainer.store.cursorValue = none) : Works drainParameters here sealCall where
  granted := granted
  identity := rfl
  signs _ := rfl
  commits := rfl
  knows cursor last found _ := by
    rw [DurableReceiptStore.cursor, runFrom_bind, runFrom_get] at found
    dsimp only at found
    rw [empty] at found
    cases found

def deniedCall : SealCall :=
  { sealCall with request := ⟨⟨1, 1⟩, .sealReceipt, sampleTarget⟩ }

/-- A denied request, and a seal of its record. -/
theorem receiptBackpressure_drained : ∃ events here,
    Run (RoomyStep drainParameters) drainedFirst events here ∧ events.length = 2 ∧
      Covered drainParameters here := by
  have ran : ∃ served sealed refused outcome,
      (serve drainParameters 0 sampleDenied).runFrom
        drainedFirst.runtime = some (refused, served) ∧
      (sealEpoch drainParameters sealCall).runFrom { drainedFirst with runtime := served } =
        some (outcome, sealed) ∧
      pending served = 1 ∧ served.witness.written = 1 := ⟨_, _, _, _, rfl, rfl, rfl, rfl⟩
  obtain ⟨served, sealed, refused, outcome, requested, sealing, waiting, total⟩ := ran
  have run : Run (RoomyStep drainParameters) drainedFirst
      [.requested sampleDenied refused, .sealed sealCall outcome] sealed := by
    apply (Run.single (⟨.requested (by decide) rfl requested,
        fun _ => show 0 + 1 + 1 ≤ maxContextEpochRecords by decide, by decide⟩ :
      RoomyStep drainParameters drainedFirst (.requested sampleDenied refused)
        { drainedFirst with runtime := served })).snoc
    refine ⟨.sealed sealing, .inl ?_, ?_⟩
    · show pending served + 2 ≤ 3
      omega
    · show served.witness.written + 4 < _
      omega
  exact ⟨_, sealed, run, rfl, receiptBackpressure drainParameters (fun _ _ => Nat.zero_le _)
    (fun _ => Nat.zero_le _) _ _ _ _ 1 _ rfl rfl _ _ run⟩

/-- Three seals that were denied fill the ring; the seal that would work then
overwrites the first record, and fails. -/
theorem deniedSeals : ∃ drainer events here call, new .opened 1 = .ok drainer ∧
    drainer.admits drainParameters.witness.capacity drainedFirst.runtime = .ok () ∧
    Run (Step drainParameters) ⟨drainedFirst.runtime, drainer⟩ events here ∧
    Works drainParameters here call ∧
    (∃ next, (sealEpoch drainParameters call).runFrom here =
      some (.error (.failed (.runtime (.refused .receiptSealFailed))), next) ∧
      ∃ record ∈ next.runtime.recorded.head?, ∀ i, i < 3 → next.runtime.witness.records i ≠ record) ∧
    ¬ Covered drainParameters here := by
  have ran : ∃ first second third last, ∃ outcome : Except DrainerStop ReceiptCursor,
      (sealEpoch drainParameters deniedCall).runFrom drainedFirst = some (outcome, first) ∧
      (sealEpoch drainParameters deniedCall).runFrom first = some (outcome, second) ∧
      (sealEpoch drainParameters deniedCall).runFrom second = some (outcome, third) ∧
      (∃ authorized mid, (authorize drainParameters sealCall.request
        .sealReceipt).runFrom third.runtime = some (.ok authorized, mid)) ∧
      third.drainer.store.cursorValue = none ∧
      (sealEpoch drainParameters sealCall).runFrom third =
        some (.error (.failed (.runtime (.refused .receiptSealFailed))), last) ∧
      ∃ record ∈ last.runtime.recorded.head?, ∀ i, i < 3 → last.runtime.witness.records i ≠ record :=
    ⟨_, _, _, _, _, rfl, rfl, rfl, ⟨_, _, rfl⟩, rfl, rfl, _, rfl, by decide⟩
  obtain ⟨first, second, third, last, outcome, once, twice, thrice, granted, empty, failed, lost⟩ :=
    ran
  have run : Run (Step drainParameters) drainedFirst _ third :=
    (((Run.single (.sealed once)).snoc (.sealed twice)).snoc (.sealed thrice))
  have works := sealCall_works granted empty
  refine ⟨_, _, third, sealCall, rfl, rfl, run, works, ⟨last, failed, lost⟩, fun covered => ?_⟩
  have recovers := covered.recovers sealCall works
  rw [Ensures, failed] at recovers
  exact recovers

end ReceiptDrainer

end Rvm.Service
