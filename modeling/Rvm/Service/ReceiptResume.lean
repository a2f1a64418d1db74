import Rvm.Context.ReceiptChain
import Rvm.Service.ReceiptHistory

/-!
Owns what a runtime resumed from the durable cursor seals: the store accepts it. The
witness log of the runtime is any log that was appended to from its creation.
-/

namespace Rvm.Service

open DurableReceiptStore

open Context ContextRuntime DurableReceiptStore Foundation Foundation.Call Witness WitnessLog List

/-! ### Resumed runtimes -/

def resumeState : Option ReceiptCursor → ReceiptChainState
  | none => .genesis ⟨0, 0⟩
  | some cursor => cursor.intoChainState

section Resuming

variable {ρ κ : Type}

def resumedRuntime (actor : PartitionId) (authority : ContextAuthority) (resolver : ρ)
    (witness : WitnessLog) (receiptChain : ReceiptChainState) (clock : κ) : ContextRuntime ρ κ where
  actor := actor
  authority := authority
  resolver := resolver
  witness := witness
  receiptChain := receiptChain
  clock := clock
  asked := []
  recorded := []

variable {parameters : RuntimeParameters ρ κ} {start here next : ContextRuntime ρ κ}

theorem unsealed_run {events : List RuntimeEvent}
    (run : Run (Step parameters) start events here)
    (unsealed : events.filterMap RuntimeEvent.sealedReceipt = []) :
    here.receiptChain = start.receiptChain ∧ ∃ calls, here.witness =
      start.witness.run parameters.witness.capacity parameters.witness.hasher calls := by
  induction run with
  | nil => exact ⟨rfl, [], rfl⟩
  | snoc _ step ih =>
    rw [filterMap_append, append_eq_nil_iff] at unsealed
    obtain ⟨receiptChain, calls, witness⟩ := ih unsealed.1
    cases step_effect step with
    | kept more _ appends same =>
      refine ⟨same.trans receiptChain, calls ++ more, ?_⟩
      rw [appends.witness, witness, run_append]
    | sealedEpoch sealedEpoch => simp [RuntimeEvent.sealedReceipt] at unsealed

theorem seal_checked (request : ContextRequest) (arguments : SealArguments) :
    (sealEpochTransactional parameters request arguments).Ensures here
      (fun result next =>
        (∃ verified, result.1.verify parameters.witness.sha256 arguments.signer = .ok verified) ∧
        arguments.persist result.1 next.receiptChain = some (.ok ()))
      fun _ _ => True := by
  unfold sealEpochTransactional
  rw [ensures_bind]
  apply (authorize_spec (.sealEpoch request arguments)).mono
  · intro authorized mid _
    simp only [ensures_bind, ensures_get, refuseWhen, ensures_throwIf,
      ensures_translate, ensures_orRefusal, ensures_orThrow, ensures_modify, ensures_pure,
      nextTimestamp, onWitness, ensures_onPart, emitRecord,
      ensures_set]
    refine ⟨fun _ => trivial, fun _ => ⟨fun _ => trivial, fun _ => ⟨?_, fun _ _ => trivial⟩⟩⟩
    rintro ⟨unsigned, nextCheckpoint⟩ sealing
    refine ⟨fun verified known => ⟨fun persisted asked => ⟨fun _ done => ?_, fun _ _ => trivial⟩,
      fun _ => trivial⟩, fun _ _ => trivial⟩
    exact ⟨⟨verified, known⟩, asked.trans (congrArg some done)⟩
  · exact fun _ _ _ => trivial

end Resuming

theorem chainHash_run {hasher : ChainHasher} {N : Nat} (calls : List WitnessCall)
    (fits : calls.length < 18446744073709551616) :
    (WitnessLog.new.run N hasher calls).chainHash = chainHashAt hasher calls.length := by
  have advanced := @advanceChain_run hasher N WitnessLog.new calls (by
    show 0 + calls.length < _
    omega)
  have same : advanceChain hasher WitnessLog.new.chainHash WitnessLog.new.sequence calls.length =
      some (chainHashAt hasher (0 + calls.length)) :=
    advanceChain_chainHashAt (by unfold u64Max; show 0 + calls.length ≤ _; omega)
  rw [same, Nat.zero_add] at advanced
  exact (Option.some.inj advanced).symm

theorem checkpoint_run {hasher : ChainHasher} {N : Nat} (calls : List WitnessCall)
    (fits : calls.length < 18446744073709551616) :
    (WitnessLog.new.run N hasher calls).checkpoint =
      ⟨calls.length, chainHashAt hasher calls.length⟩ := by
  have sequence := (@logged_produced N hasher calls fits).sequence
  rw [produced_length] at sequence
  rw [checkpoint, sequence, chainHash_run calls fits]

theorem within_of_taken {N : Nat} {log : WitnessLog} {checkpoint : WitnessCheckpoint}
    {out copied : List WitnessRecord} {snapshot : WitnessSnapshot}
    (taken : log.snapshotSince N checkpoint out = (.ok snapshot, copied)) :
    checkpoint.nextSequence ≤ log.sequence := by
  by_contra future
  rw [snapshotSince, if_pos (Nat.not_le.mp future)] at taken
  cases taken

namespace DurableReceiptStore.StoredChain

variable {ρ κ : Type} {parameters : RuntimeParameters ρ κ} {here next : ContextRuntime ρ κ}
  {store : DurableReceiptStore}
  {receipts : List (VerifiedContextEpochReceipt parameters.witness.sha256)}
  {calls : List WitnessCall} {request : ContextRequest} {arguments : SealArguments}
  {authorized : AuthorizedRequest} {unsigned : ContextEpochReceipt}
  {verified : VerifiedContextEpochReceipt parameters.witness.sha256} {sealTimestampNs : Nat}
  {nextCheckpoint : WitnessCheckpoint}

def storedCursor (sha256 : List UInt8 → Octets 32) (hasher : ChainHasher)
    (receipts : List (VerifiedContextEpochReceipt sha256)) : Option ReceiptCursor :=
  receipts.getLast?.map fun last => cursorAfter sha256 hasher receipts.length last.signed

/-- Where a sealed epoch lies in a log of `total` records, the decision included. -/
structure SealedBehind (hasher : ChainHasher) (state : ReceiptChainState) (total : Nat)
    (unsigned : ContextEpochReceipt) (nextCheckpoint : WitnessCheckpoint) : Prop where
  epochId : unsigned.epochId = state.nextEpochId
  firstSequence : unsigned.firstSequence = state.nextCheckpoint.nextSequence
  ordered : unsigned.firstSequence ≤ total
  lastSequence : unsigned.lastSequence + 1 = total
  initialChainHash : unsigned.initialChainHash = state.nextCheckpoint.chainHash
  previousReceipt : unsigned.previousReceipt = state.previousReceiptId
  checkpoint : nextCheckpoint = ⟨total, chainHashAt hasher total⟩

theorem sealedBehind_of_seals {state : ReceiptChainState} {first epoch : List WitnessCall}
    {head : WitnessRecord} {rest : List WitnessRecord} {commitments : EpochCommitments}
    (fits : first.length + epoch.length < 18446744073709551616)
    (cursor : state.nextCheckpoint = (WitnessLog.new.run parameters.witness.capacity
      parameters.witness.hasher first).checkpoint)
    (slice : (WitnessLog.new.run parameters.witness.capacity parameters.witness.hasher first).produced
      parameters.witness.capacity parameters.witness.hasher epoch = head :: rest)
    (seals : ContextEpochReceipt.Seals parameters.witness.sha256 parameters.witness.hasher
      state.nextEpochId state.nextCheckpoint head rest state.previousReceiptId commitments
      unsigned) :
    SealedBehind parameters.witness.hasher state (first ++ epoch).length unsigned
      (WitnessLog.new.run parameters.witness.capacity parameters.witness.hasher
        (first ++ epoch)).checkpoint := by
  have total : (first ++ epoch).length = first.length + epoch.length := length_append
  have start := @checkpoint_run parameters.witness.hasher parameters.witness.capacity first
    (by omega)
  have position := @checkpoint_run parameters.witness.hasher parameters.witness.capacity
    (first ++ epoch) (by omega)
  have begins : state.nextCheckpoint.nextSequence = first.length := by
    rw [cursor, start]
  have spans := epochSpan_of_seals fits slice (cursor ▸ seals)
  refine ⟨seals.epochId, ?_, ?_, spans.last, seals.initialChainHash, seals.previousReceipt, position⟩
  · rw [spans.begins, begins]
  · rw [spans.begins, total]
    exact Nat.le_add_right _ _

theorem sealed_behind (log : here.witness =
      WitnessLog.new.run parameters.witness.capacity parameters.witness.hasher calls)
    (fits : calls.length + 1 < 18446744073709551616)
    (hashed : here.receiptChain.nextCheckpoint.chainHash = chainHashAt parameters.witness.hasher
      here.receiptChain.nextCheckpoint.nextSequence)
    (sealedEpoch : SealedEpoch parameters here request arguments authorized unsigned
      verified sealTimestampNs nextCheckpoint next) :
    SealedBehind parameters.witness.hasher here.receiptChain (calls.length + 1) unsigned
      nextCheckpoint := by
  obtain ⟨snapshot, copied, head, rest, taken, ends, records, seals⟩ := sealedEpoch.seals
  have total : parameters.witness.logged here.witness
      (authorized.recordOf parameters.witness .proofVerifiedP1) =
        WitnessLog.new.run parameters.witness.capacity parameters.witness.hasher
          (calls ++ [decisionCall parameters.witness authorized]) := by
    rw [log, run_append]
    rfl
  rw [total] at taken
  have long : (calls ++ [decisionCall parameters.witness authorized]).length =
      calls.length + 1 := by
    rw [length_append]
    rfl
  generalize calls ++ [decisionCall parameters.witness authorized] = all
    at taken long
  have position := @checkpoint_run parameters.witness.hasher parameters.witness.capacity all
    (long ▸ fits)
  have within := within_of_taken taken
  rw [show (WitnessLog.new.run parameters.witness.capacity parameters.witness.hasher all).sequence =
    all.length from congrArg WitnessCheckpoint.nextSequence position] at within
  -- the records up to the cursor, and those behind it
  obtain ⟨first, second, rfl, covered⟩ : ∃ first second, all = first ++ second ∧
      first.length = here.receiptChain.nextCheckpoint.nextSequence :=
    ⟨_, _, (take_append_drop _ all).symm, length_take_of_le within⟩
  rw [length_append] at long
  have cursor : here.receiptChain.nextCheckpoint = (WitnessLog.new.run parameters.witness.capacity
      parameters.witness.hasher first).checkpoint := by
    rw [@checkpoint_run parameters.witness.hasher parameters.witness.capacity first (by omega),
      covered, ← hashed]
  have logged := @logged_produced parameters.witness.capacity
    parameters.witness.hasher first (by omega)
  rw [run_append, cursor] at taken
  obtain ⟨ended, slice⟩ := snapshot_taken logged (by
    rw [produced_length]
    omega) taken
  have behind := sealedBehind_of_seals (by omega) cursor (slice.symm.trans records) seals
  rw [length_append, long] at behind
  rw [ends, ended, ← run_append]
  exact behind

theorem sealed_continues (chain : StoredChain parameters.witness.sha256 parameters.witness.hasher
      store receipts)
    {total : Nat} (room : receipts.length + 1 ≤ u64Max)
    (behind : SealedBehind parameters.witness.hasher
      (resumeState (storedCursor parameters.witness.sha256 parameters.witness.hasher receipts)) total
      verified.signed.receipt nextCheckpoint) :
    (receipts = [] → verified.verifyGenesis = .ok ()) ∧
      (∀ last ∈ receipts.getLast?,
        verified.verifySuccessor parameters.witness.hasher last = .ok ()) ∧
      ∀ last ∈ receipts.getLast?,
        verified.signed.receipt.previousReceipt = last.signed.receiptId parameters.witness.sha256 := by
  refine ⟨fun empty => ?_, fun last member => ?_, fun last member => ?_⟩
  · subst empty
    simp [VerifiedContextEpochReceipt.verifyGenesis, behind.epochId, behind.firstSequence,
      behind.initialChainHash, behind.previousReceipt, storedCursor, resumeState,
      ReceiptChainState.genesis]
  · rw [storedCursor, Option.mem_def.mp member] at behind
    obtain ⟨sequenceRoom, _⟩ := chain.room last member
    have inside := (List.getElem?_eq_some_iff.mp (List.getLast?_eq_getElem? ▸ member)).1
    have epoch := chain.numbered (receipts.length - 1) last (List.getLast?_eq_getElem? ▸ member)
    have advanced := chain.chainHash_last member
    have epochAfter : last.signed.receipt.epochId + 1 = receipts.length := by omega
    simp [VerifiedContextEpochReceipt.verifySuccessor, advanced, epochAfter, behind.epochId,
      behind.firstSequence, behind.initialChainHash, behind.previousReceipt, resumeState,
      ReceiptCursor.intoChainState, cursorAfter]
    omega
  · rw [storedCursor, Option.mem_def.mp member] at behind
    exact behind.previousReceipt

theorem behind_accepted {signer : WitnessSigner}
    (chain : StoredChain parameters.witness.sha256 parameters.witness.hasher store receipts)
    (bounded : WordHashes parameters.witness.hasher)
    {total : Nat} (fits : total ≤ u64Max) (room : receipts.length + 1 ≤ u64Max)
    (behind : SealedBehind parameters.witness.hasher
      (resumeState (storedCursor parameters.witness.sha256 parameters.witness.hasher receipts)) total
      verified.signed.receipt nextCheckpoint)
    (known : verified.signed.verify parameters.witness.sha256 signer = .ok verified)
    (previousKnown : ∀ last ∈ receipts.getLast?,
      last.signed.verify parameters.witness.sha256 signer = .ok last) :
    (appendVerified parameters.witness.sha256 parameters.witness.hasher true verified.signed
      (.fromChainState ⟨nextCheckpoint, receipts.length + 1,
        verified.signed.receiptId parameters.witness.sha256⟩) signer).Ensures store
      (fun _ following => following.cursorValue =
        some (ReceiptCursor.fromChainState ⟨nextCheckpoint, receipts.length + 1,
          verified.signed.receiptId parameters.witness.sha256⟩).encode)
      fun _ _ => False := by
  obtain ⟨genesis, continues, linked⟩ := chain.sealed_continues room behind
  refine chain.accepts bounded known previousKnown genesis continues linked ?_ room ?_ ?_
  · rw [behind.lastSequence]
    exact behind.ordered
  · rw [behind.lastSequence]
    exact fits
  · rw [behind.checkpoint, cursorAfter, behind.lastSequence]
    rfl

theorem resumed_epochs (sha256 : List UInt8 → Octets 32) (hasher : ChainHasher)
    (receipts : List (VerifiedContextEpochReceipt sha256)) :
    (resumeState (storedCursor sha256 hasher receipts)).nextEpochId = receipts.length := by
  rw [storedCursor]
  rcases found : receipts.getLast? with _ | last
  · rw [List.getLast?_eq_none_iff.mp found]
    rfl
  · rfl

theorem sealed_accepted (chain : StoredChain parameters.witness.sha256 parameters.witness.hasher
      store receipts) (bounded : WordHashes parameters.witness.hasher)
    (log : here.witness =
      WitnessLog.new.run parameters.witness.capacity parameters.witness.hasher calls)
    (fits : calls.length + 1 < 18446744073709551616)
    (resumes : here.receiptChain =
      resumeState (storedCursor parameters.witness.sha256 parameters.witness.hasher receipts))
    (sealedEpoch : SealedEpoch parameters here request arguments authorized unsigned
      verified sealTimestampNs nextCheckpoint next)
    (known : verified.signed.verify parameters.witness.sha256 arguments.signer = .ok verified)
    (previousKnown : ∀ last ∈ receipts.getLast?,
      last.signed.verify parameters.witness.sha256 arguments.signer = .ok last) :
    (appendVerified parameters.witness.sha256 parameters.witness.hasher true verified.signed
      (.fromChainState next.receiptChain) arguments.signer).Ensures store
      (fun _ following => following.cursorValue =
        some (ReceiptCursor.fromChainState next.receiptChain).encode)
      fun _ _ => False := by
  have hashed : here.receiptChain.nextCheckpoint.chainHash = chainHashAt parameters.witness.hasher
      here.receiptChain.nextCheckpoint.nextSequence := by
    rw [resumes, storedCursor]
    cases receipts.getLast? <;> rfl
  have behind := sealed_behind log fits hashed sealedEpoch
  have signed : verified.signed.receipt = unsigned := by
    rw [sealedEpoch.signed]
    rfl
  have epochs : here.receiptChain.nextEpochId = receipts.length := by
    rw [resumes, resumed_epochs]
  rw [resumes, ← signed] at behind
  rw [sealedEpoch.receiptChain, epochs]
  exact chain.behind_accepted bounded (Nat.le_of_lt_succ fits) (epochs ▸ sealedEpoch.room) behind
    known previousKnown

end DurableReceiptStore.StoredChain

/-! ### The store over all sequences of appends -/

section Durable

variable {ρ κ : Type} (parameters : RuntimeParameters ρ κ)

/-- What a resumed runtime does: it takes up the cursor with a log that was appended
to from its creation, serves without sealing, and then seals an epoch. -/
def SealedNext (cursor : Option ReceiptCursor) (arguments : SealArguments)
    (signed : SignedContextEpochReceipt) (next : ContextRuntime ρ κ) : Prop :=
  ∃ (actor : PartitionId) (authority : ContextAuthority) (resolver : ρ) (clock : κ)
      (calls : List WitnessCall) (events : List RuntimeEvent)
      (here : ContextRuntime ρ κ) (request : ContextRequest) (checkpoint : WitnessCheckpoint),
    Run (Step parameters)
      (resumedRuntime actor authority resolver
        (WitnessLog.new.run parameters.witness.capacity parameters.witness.hasher calls)
        (resumeState cursor) clock) events here ∧
    events.filterMap RuntimeEvent.sealedReceipt = [] ∧
    (sealEpochTransactional parameters request arguments).runFrom here =
      some (.ok (signed, checkpoint), next)

/-- After any sequence of appends the store holds one chain, a refused append changes nothing, and
what a resumed runtime seals next is accepted. -/
theorem durableReceiptChain
    (bounded : ∀ chainHash sequence,
      parameters.witness.hasher.computeChainHash chainHash sequence ≤ u64Max)
    (events : List DurableReceiptStore.Event) (store : DurableReceiptStore)
    (run : Run (DurableReceiptStore.Step parameters.witness.sha256 parameters.witness.hasher)
      .opened events store) :
    ∃ receipts : List (VerifiedContextEpochReceipt parameters.witness.sha256),
      receipts.map (fun verified => verified.signed) =
        events.filterMap storedReceipt ∧
      DurableReceiptStore.StoredChain parameters.witness.sha256 parameters.witness.hasher store
        receipts ∧
      cursor.Ensures store
        (fun found _ => found = receipts.getLast?.map fun last =>
          cursorAfter parameters.witness.sha256 parameters.witness.hasher
            receipts.length last.signed)
        (fun _ _ => False) ∧
      (∀ first ∈ receipts, ∀ second ∈ receipts,
        first.signed.receipt.epochId = second.signed.receipt.epochId → first = second) ∧
      (∀ attempt reason next,
        DurableReceiptStore.Step parameters.witness.sha256 parameters.witness.hasher store
          (attempt, .error reason) next → next = store) ∧
      ∀ cursor arguments signed next,
        DurableReceiptStore.cursor.runFrom store = some (.ok cursor, store) →
        SealedNext parameters cursor arguments signed next →
        next.witness.written < 18446744073709551616 →
        (∀ last ∈ receipts.getLast?,
          last.signed.verify parameters.witness.sha256 arguments.signer = .ok last) →
        (appendVerified parameters.witness.sha256 parameters.witness.hasher true
          signed (.fromChainState next.receiptChain) arguments.signer).Ensures store
          (fun _ after => after.cursorValue =
            some (ReceiptCursor.fromChainState next.receiptChain).encode)
          fun _ _ => False := by
  obtain ⟨receipts, chain, stored⟩ := storedChain_run bounded run
  have found := chain.cursor_spec bounded
  refine ⟨receipts, stored, chain, found.weaken fun _ _ held => held.2,
    fun first left second right same => chain.epoch_injective left right same, ?_, ?_⟩
  · intro attempt reason next step
    rcases step_stored attempt step with ⟨_, accepted, _⟩ | ⟨_, _, same⟩
    · cases accepted
    · exact same
  · rintro cursor arguments signed next read ⟨actor, authority, resolver, clock, calls, events, here,
      request, checkpoint, served, unsealed, ran⟩ fits previousKnown
    rw [Ensures, read] at found
    obtain ⟨receiptChain, more, witness⟩ := unsealed_run served unsealed
    have sealing : (sealEpochTransactional parameters request arguments).Ensures here
      _ _ := sealEpochTransactional_spec request arguments
    rw [Ensures, ran] at sealing
    obtain ⟨authorized, unsigned, verified, sealTimestampNs, sealedEpoch, rfl⟩ := sealing
    have verifies : (sealEpochTransactional parameters request arguments).Ensures here
      _ _ := seal_checked request arguments
    rw [Ensures, ran] at verifies
    obtain ⟨⟨again, known⟩, _⟩ := verifies
    rw [verified_ext (verified_signed known)] at known
    have log : here.witness = WitnessLog.new.run parameters.witness.capacity
        parameters.witness.hasher (calls ++ more) := by
      rw [witness, run_append]
      rfl
    have total : next.witness.written = (calls ++ more).length + 2 := by
      rw [sealedEpoch.logs.appends.witness, log, written_run,
        written_run]
      exact congrArg (· + 2) (Nat.zero_add _)
    exact chain.sealed_accepted bounded log (by omega) (by rw [receiptChain, found.2]; rfl)
      sealedEpoch known previousKnown

end Durable

/-! ### Epochs that the store refuses -/

/-- Chain hashes that differ at first, and whose folds never do. -/
def climbingHasher : ChainHasher :=
  ⟨fun chainHash _ => min (chainHash + 1) 3, fun _ => 0⟩

def resumeParameters : RuntimeParameters Unit Nat :=
  { sampleParameters with witness := ⟨1, climbingHasher, fun _ => .zero 32⟩ }

def firstSigned : SignedContextEpochReceipt :=
  ContextEpochReceipt.sign (fun _ => .zero 32)
    ⟨0, 0, 0, 1, 0, 0, 0, .zero 32, .zero 32, .zero 32, .zero 32, .zero 32, .zero 32⟩
    sampleArguments.signer

def firstCursor : ReceiptCursor := ⟨1, 1, 1, .zero 32⟩

theorem firstSigned_wellFormed : firstSigned.WellFormed := by
  constructor <;> decide

def firstAttempt : Attempt :=
  ⟨true, firstSigned, firstSigned_wellFormed, firstCursor, sampleArguments.signer⟩

def firstStore : DurableReceiptStore :=
  ⟨Function.update (fun _ => none) 0 (some firstSigned.toBytes), some firstCursor.encode⟩

theorem step_first : Step resumeParameters.witness.sha256
    resumeParameters.witness.hasher .opened (firstAttempt, .ok ()) firstStore := rfl

theorem cursor_first : cursor.runFrom firstStore =
    some (.ok (some firstCursor), firstStore) := rfl

theorem climbing_bounded (chainHash sequence : Nat) :
    resumeParameters.witness.hasher.computeChainHash chainHash sequence ≤ u64Max :=
  (Nat.min_le_right _ _).trans (by decide)

def resumedFirst (witness : WitnessLog) : ContextRuntime Unit Nat :=
  resumedRuntime ⟨1⟩ sampleAuthority () witness (resumeState (some firstCursor)) 0

/-- The second epoch is accepted. -/
theorem durableReceiptChain_resumed : ∃ signed next,
    SealedNext resumeParameters (some firstCursor) ContextRuntime.sampleArguments signed next ∧
      (appendVerified resumeParameters.witness.sha256
        resumeParameters.witness.hasher true signed (.fromChainState next.receiptChain)
        ContextRuntime.sampleArguments.signer).Ensures firstStore
        (fun _ after => after.cursorValue =
          some (ReceiptCursor.fromChainState next.receiptChain).encode)
        fun _ _ => False := by
  have ran : ∃ signed checkpoint next,
      (sealEpochTransactional resumeParameters sampleRequest
        sampleArguments).runFrom
          (resumedFirst (WitnessLog.new.run 1 climbingHasher [.append .zeroed])) =
        some (.ok (signed, checkpoint), next) ∧ next.witness.written = 3 := ⟨_, _, _, rfl, rfl⟩
  obtain ⟨signed, checkpoint, next, ran, total⟩ := ran
  have sealing : SealedNext resumeParameters (some firstCursor) sampleArguments signed
      next := ⟨_, _, _, _, _, [], _, _, checkpoint, .nil, rfl, ran⟩
  refine ⟨signed, next, sealing, ?_⟩
  obtain ⟨receipts, stored, _, _, _, _, accepted⟩ :=
    durableReceiptChain resumeParameters climbing_bounded _ firstStore (.single step_first)
  apply accepted _ _ _ _ cursor_first sealing (by omega)
  intro last member
  have only : last.signed ∈ [firstSigned] := by
    rw [← show receipts.map (fun verified => verified.signed) = [firstSigned] from stored]
    exact List.mem_map.mpr ⟨last, List.mem_of_getLast? member, rfl⟩
  have known : ∃ verified, last.signed.verify resumeParameters.witness.sha256
      sampleArguments.signer = .ok verified := by
    rw [List.mem_singleton.mp only]
    exact ⟨_, rfl⟩
  obtain ⟨verified, known⟩ := known
  rw [known, verified_ext (verified_signed known)]

def rotatedArguments : SealArguments :=
  { sampleArguments with
    signer := ⟨List.Vector.replicate 32 1, fun _ => .zero 64, fun _ _ => .ok ()⟩ }

/-- The runtime resumed behind the first epoch seals a second one that the store refuses. -/
abbrev RefusesNext (arguments : SealArguments) (reason : ServiceError) : Prop := ∃ signed next,
  SealedNext resumeParameters (some firstCursor) arguments signed next ∧
    (appendVerified resumeParameters.witness.sha256 resumeParameters.witness.hasher true signed
      (.fromChainState next.receiptChain) arguments.signer).runFrom firstStore =
        some (.error reason, firstStore)

set_option maxRecDepth 8000 in
theorem rotated_refused :
    RefusesNext rotatedArguments (.database (.receiptVerification .signerMismatch)) := by
  have ran : ∃ signed checkpoint next, (sealEpochTransactional resumeParameters sampleRequest
      rotatedArguments).runFrom
        (resumedFirst (WitnessLog.new.run 1 climbingHasher [.append .zeroed])) =
      some (.ok (signed, checkpoint), next) := ⟨_, _, _, rfl⟩
  obtain ⟨signed, checkpoint, next, ran⟩ := ran
  refine ⟨signed, next, ⟨_, _, _, _, _, [], _, _, checkpoint, .nil, rfl, ran⟩, ?_⟩
  cases ran
  rfl

theorem climbed_run (turns : Nat) :
    (WitnessLog.new.run 1 climbingHasher
        (List.replicate (turns + 3) (.append .zeroed))).chainHash = 3 ∧
      (WitnessLog.new.run 1 climbingHasher
        (List.replicate (turns + 3) (.append .zeroed))).writePos = 0 := by
  induction turns with
  | zero => exact ⟨rfl, rfl⟩
  | succ turns ih =>
    rw [Nat.succ_add, replicate_succ', run_append]
    refine ⟨?_, Nat.mod_one _⟩
    show min (chainHash _ + 1) 3 = 3
    rw [ih.1]
    rfl

theorem sealFromLog_secondLap (records : Nat → WitnessRecord) (total written : Nat)
    (record : WitnessRecord) :
    ∃ unsigned, ContextEpochReceipt.sealFromLog resumeParameters.witness.sha256 1 climbingHasher 1
        (resumeParameters.witness.logged ⟨records, 0, 3, 1, total, written⟩ record)
        ⟨1, 1⟩ sampleArguments.scratch (.zero 32)
        sampleArguments.commitments = .ok (unsigned, ⟨2, 3⟩) ∧
      unsigned.epochId = 1 ∧ unsigned.firstSequence = 1 ∧ unsigned.lastSequence = 1 ∧
      unsigned.initialChainHash = 1 := by
  have snapshot : (resumeParameters.witness.logged ⟨records, 0, 3, 1, total, written⟩
      record).snapshotSince 1 ⟨1, 1⟩ sampleArguments.scratch =
        (.ok ⟨1, ⟨2, 3⟩⟩,
          [{ record with sequence := 1, prevHash := 0, recordHash := 0 }]) := by
    simp [snapshotSince, WitnessParameters.logged, WitnessLog.append, WitnessLog.store,
      resumeParameters, sampleArguments, asU64, copySince,
      stamp, checkpoint, Except.map, climbingHasher]
  unfold ContextEpochReceipt.sealFromLog
  rw [snapshot]
  exact ⟨_, rfl, rfl, rfl, rfl, rfl⟩

theorem secondLap_eq : ∃ records total written, WitnessLog.new.run 1 climbingHasher
    (List.replicate (18446744073709551614 + 3) (.append .zeroed)) =
      ⟨records, 0, 3, 1, total, written⟩ := by
  obtain ⟨chainHash, writePos⟩ := climbed_run 18446744073709551614
  have sequence := run_sequence climbingHasher .zeroed (18446744073709551614 + 3)
  generalize WitnessLog.new.run 1 climbingHasher _ = log at chainHash writePos sequence
  obtain ⟨records, _, _, _, total, written⟩ := log
  dsimp only at chainHash writePos sequence
  rw [chainHash, writePos, sequence]
  exact ⟨records, total, written, rfl⟩

theorem secondLap_mismatch {unsigned : ContextEpochReceipt} {state : ReceiptChainState}
    (epochId : unsigned.epochId = 1) (first : unsigned.firstSequence = 1)
    (last : unsigned.lastSequence = 1) (initial : unsigned.initialChainHash = 1)
    (following : state = ⟨⟨2, 3⟩, 2, .zero 32⟩) :
    (appendVerified resumeParameters.witness.sha256
      resumeParameters.witness.hasher true
      (unsigned.sign resumeParameters.witness.sha256 sampleArguments.signer)
      (.fromChainState state) sampleArguments.signer).runFrom firstStore =
        some (.error (.corruptState "receipt chain hash mismatch"), firstStore) := by
  obtain ⟨_, _, _, count, startedNs, endedNs, _, previousReceipt, namespaceRoot, rvfIdentity,
    policyHash, detailRoot, witnessRoot⟩ := unsigned
  dsimp only at epochId first last initial
  subst epochId first last initial following
  rfl

theorem secondLap_refused :
    RefusesNext sampleArguments (.corruptState "receipt chain hash mismatch") := by
  obtain ⟨records, total, written, log⟩ := secondLap_eq
  obtain ⟨authorized, allowed, target, timestamp⟩ :=
    @ContextAuthority.authorize_admits resumeParameters.witness 2 sampleAuthority ⟨1⟩
      0 sampleRequest .sealReceipt ⟨records, 0, 3, 1, total, written⟩ _ _ ⟨rfl, rfl⟩ rfl rfl
      ⟨rfl, rfl⟩ rfl rfl
  have granted := @runFrom_authorize _ _ resumeParameters
    (resumedFirst ⟨records, 0, 3, 1, total, written⟩) _ _ _ _ allowed
  obtain ⟨unsigned, sealing, epochId, first, last, initial⟩ :=
    sealFromLog_secondLap records total written
    (authorized.recordOf resumeParameters.witness .proofVerifiedP1)
  have ensures : (sealEpochTransactional resumeParameters
      sampleRequest sampleArguments).Ensures
      (resumedFirst ⟨records, 0, 3, 1, total, written⟩)
      (fun result _ => result = (unsigned.sign resumeParameters.witness.sha256
        sampleArguments.signer, ⟨2, 3⟩)) fun _ _ => False := by
    refine seal_succeeds granted (show 1 + 1 ≤ u64Max by decide) ?_ sealing rfl rfl
    rw [target]
    rfl
  rcases ensures.outcome with ⟨_, next, ran, rfl⟩ | ⟨_, _, _, impossible⟩
  · refine ⟨_, next, ?_, secondLap_mismatch epochId first last initial ?_⟩
    · rw [← log] at ran
      exact ⟨_, _, _, _, _, [], _, _, _, .nil, rfl, ran⟩
    · have sealed : (sealEpochTransactional resumeParameters
        sampleRequest sampleArguments).Ensures
          (resumedFirst ⟨records, 0, 3, 1, total, written⟩) _ _ :=
        sealEpochTransactional_spec _ _
      rw [Ensures, ran] at sealed
      obtain ⟨_, _, verified, _, sealedEpoch, signed⟩ := sealed
      rw [sealedEpoch.receiptChain, signed]
      rfl
  · exact impossible.elim

/-- Neither a runtime that seals with another signer nor one whose log is in its second
lap is accepted behind the stored epoch. -/
theorem refusedEpochs :
    DurableReceiptStore.Step resumeParameters.witness.sha256 resumeParameters.witness.hasher .opened
        (firstAttempt, .ok ()) firstStore ∧
      cursor.runFrom firstStore = some (.ok (some firstCursor), firstStore) ∧
      (∃ signed next,
        SealedNext resumeParameters (some firstCursor) rotatedArguments signed next ∧
          (appendVerified resumeParameters.witness.sha256
            resumeParameters.witness.hasher true signed (.fromChainState next.receiptChain)
            rotatedArguments.signer).runFrom firstStore =
              some (.error (.database (.receiptVerification .signerMismatch)), firstStore)) ∧
      ∃ signed next,
        SealedNext resumeParameters (some firstCursor) ContextRuntime.sampleArguments signed next ∧
          (appendVerified resumeParameters.witness.sha256
            resumeParameters.witness.hasher true signed (.fromChainState next.receiptChain)
            ContextRuntime.sampleArguments.signer).runFrom firstStore =
              some (.error (.corruptState "receipt chain hash mismatch"), firstStore) :=
  ⟨step_first, cursor_first, rotated_refused, secondLap_refused⟩

end Rvm.Service
