import Rvm.Context.Mediation

/-!
Owns the chain of the sealed epochs over runs of a governed runtime. Between accesses the
owner may change the authority and append to the log.
-/

namespace Rvm.Context

open VerifiedContextEpochReceipt ContextEpochReceipt

open Cap ContextEpochReceipt Foundation Foundation.Call Witness WitnessLog

/-! ### Receipts against the log -/

section Records

variable {sha256 : List UInt8 → Octets 32} {hasher : ChainHasher} {N : Nat}

theorem advanceChain_run (log : WitnessLog) (calls : List WitnessCall)
    (fits : log.sequence + calls.length < 18446744073709551616) :
    advanceChain hasher log.chainHash log.sequence calls.length =
      some (log.run N hasher calls).chainHash := by
  induction calls generalizing log with
  | nil => rfl
  | cons call rest ih =>
    rw [List.length_cons] at fits
    have later : (log.apply N hasher call).sequence = log.sequence + 1 := by
      rw [apply_eq_store]
      exact Nat.mod_eq_of_lt (by omega)
    have hash : (log.apply N hasher call).chainHash =
        hasher.computeChainHash log.chainHash log.sequence := by
      rw [apply_eq_store]
      rfl
    have continued := ih (log.apply N hasher call) (by omega)
    rw [later, hash] at continued
    rw [List.length_cons, advanceChain, if_neg (by unfold u64Max; omega)]
    exact continued

theorem snapshot_taken {start : WitnessLog} {history : List WitnessRecord}
    (logged : Logged N start history) {calls : List WitnessCall}
    (fits : history.length + calls.length < 18446744073709551616) {out copied : List WitnessRecord}
    {snapshot : WitnessSnapshot}
    (taken : (start.run N hasher calls).snapshotSince N start.checkpoint out =
      (.ok snapshot, copied)) :
    snapshot.endCheckpoint = (start.run N hasher calls).checkpoint ∧
      copied.take snapshot.count = start.produced N hasher calls := by
  rw [logged.snapshot_appended calls fits] at taken
  split at taken
  · cases taken
  · split at taken
    · cases taken
    · cases taken
      exact ⟨rfl, List.take_left' (produced_length calls)⟩

theorem verifyChainFrom_first {first : WitnessRecord} {rest : List WitnessRecord}
    {chainHash expected count : Nat}
    (accepted : verifyChainFrom hasher (first :: rest) chainHash expected = .ok count) :
    first.sequence = expected := by
  by_contra other
  rw [verifyChainFrom, Witness.verifyRecords, if_pos other] at accepted
  cases accepted

theorem ContextEpochReceipt.Seals.accepted {epochId : Nat} {checkpoint : WitnessCheckpoint}
    {first : WitnessRecord} {rest : List WitnessRecord} {previousReceipt : Octets 32}
    {commitments : EpochCommitments} {receipt : ContextEpochReceipt}
    (seals : Seals sha256 hasher epochId checkpoint first rest previousReceipt commitments receipt) :
    receipt.verifyRecords sha256 hasher (first :: rest) = .ok () := by
  obtain ⟨count, chained⟩ := seals.chained
  have start := verifyChainFrom_first chained
  rw [verifyRecords, seals.recordCount, if_neg (Nat.not_lt.mpr seals.short), if_neg (not_not.mpr rfl)]
  rw [seals.firstSequence, seals.lastSequence, seals.last, seals.bounds, seals.initialChainHash,
    seals.witnessRoot, start, chained]
  simp

theorem ContextEpochReceipt.sealFromLog_appended {start : WitnessLog}
    {history : List WitnessRecord} (logged : Logged N start history)
    {epoch : List WitnessCall} (nonempty : epoch ≠ [])
    (fits : history.length + epoch.length < 18446744073709551616) (inRing : epoch.length ≤ N)
    (short : epoch.length ≤ maxContextEpochRecords) {scratch : List WitnessRecord}
    (room : epoch.length ≤ scratch.length) (epochId : Nat) (previousReceipt : Octets 32)
    (commitments : EpochCommitments) :
    ∃ unsigned head rest, start.produced N hasher epoch = head :: rest ∧
      Seals sha256 hasher epochId start.checkpoint head rest previousReceipt commitments unsigned ∧
      sealFromLog sha256 N hasher epochId (start.run N hasher epoch) start.checkpoint scratch
        previousReceipt commitments = .ok (unsigned, (start.run N hasher epoch).checkpoint) := by
  have chained := @verifyChainFrom_produced N hasher start epoch nonempty
  have size := @produced_length N hasher start epoch
  have numbered : ∀ i (record : WitnessRecord),
      (start.produced N hasher epoch)[i]? = some record → record.sequence = history.length + i := by
    intro i record held
    apply (logged.run epoch fits).numbered
    rw [List.getElem?_append_right (Nat.le_add_right _ _), Nat.add_sub_cancel_left]
    exact held
  have copied : (start.produced N hasher epoch ++ scratch.drop epoch.length).take epoch.length =
      start.produced N hasher epoch := List.take_left' size
  rw [sealFromLog, logged.snapshot_appended epoch fits, if_neg (Nat.not_lt.mpr inRing),
    if_neg (Nat.not_lt.mpr room)]
  dsimp only
  rw [copied]
  generalize start.produced N hasher epoch = records at chained size numbered
  cases records with
  | nil => cases chained
  | cons first rest =>
    have begins := numbered 0 first rfl
    have ends : (rest.getLastD first).sequence = history.length + rest.length := by
      apply numbered
      rw [List.getLastD_eq_getLast?, ← List.getLast?_cons, List.getLast?_eq_getElem?]
      rfl
    rw [List.length_cons] at size
    have sealing : ∃ unsigned, sealRecords sha256 hasher epochId start.checkpoint (first :: rest)
        previousReceipt commitments = .ok unsigned := by
      simp only [sealRecords, chained, List.length_cons, begins, ends, size]
      rw [if_neg (Nat.not_lt.mpr short), if_neg]
      · exact ⟨_, rfl⟩
      · unfold u64Max
        omega
    obtain ⟨unsigned, sealing⟩ := sealing
    obtain ⟨head, others, same, seals⟩ := seals_of_sealRecords sealing
    rw [sealing]
    exact ⟨unsigned, head, others, same, seals, rfl⟩

end Records

/-- The number of records of a receipt's range. -/
def ContextEpochReceipt.span (receipt : ContextEpochReceipt) : Nat :=
  receipt.lastSequence + 1 - receipt.firstSequence

def ContextEpochReceipt.range (receipt : ContextEpochReceipt) : List Nat :=
  List.range' receipt.firstSequence receipt.span

def ContextEpochReceipt.recordsOf (receipt : ContextEpochReceipt) (history : List WitnessRecord) :
    List WitnessRecord :=
  (history.drop receipt.firstSequence).take receipt.span

/-- The receipts continue each other from genesis, tile the first `covered` records
of the history, and accept the records of their ranges. -/
structure UnbrokenChain (sha256 : List UInt8 → Octets 32) (hasher : ChainHasher)
    (history : List WitnessRecord) (covered : Nat)
    (receipts : List (VerifiedContextEpochReceipt sha256)) : Prop where
  genesis : ∀ first ∈ receipts.head?, first.verifyGenesis = .ok ()
  successors : receipts.IsChain fun previous verified =>
    verified.verifySuccessor hasher previous = .ok ()
  tiles : receipts.flatMap (fun verified => verified.signed.receipt.range) = List.range covered
  inHistory : covered ≤ history.length
  records : ∀ verified ∈ receipts, verified.signed.receipt.verifyRecords sha256 hasher
    (verified.signed.receipt.recordsOf history) = .ok ()

namespace UnbrokenChain

variable {sha256 : List UInt8 → Octets 32} {hasher : ChainHasher} {history : List WitnessRecord}
  {covered : Nat} {receipts : List (VerifiedContextEpochReceipt sha256)}

theorem nil (history : List WitnessRecord) :
    UnbrokenChain sha256 hasher history 0 ([] : List (VerifiedContextEpochReceipt sha256)) where
  genesis _ member := by cases member
  successors := .nil
  tiles := rfl
  inHistory := Nat.zero_le _
  records _ member := by cases member

theorem within (chain : UnbrokenChain sha256 hasher history covered receipts)
    {verified : VerifiedContextEpochReceipt sha256} (member : verified ∈ receipts) :
    verified.signed.receipt.span = 0 ∨
      verified.signed.receipt.firstSequence + verified.signed.receipt.span ≤ covered := by
  by_cases empty : verified.signed.receipt.span = 0
  · exact .inl empty
  · right
    have last : verified.signed.receipt.firstSequence + verified.signed.receipt.span - 1 ∈
        receipts.flatMap fun verified => verified.signed.receipt.range := by
      apply List.mem_flatMap.mpr
      refine ⟨verified, member, ?_⟩
      rw [range, List.mem_range'_1]
      omega
    rw [chain.tiles, List.mem_range] at last
    omega

theorem appended (chain : UnbrokenChain sha256 hasher history covered receipts)
    (more : List WitnessRecord) : UnbrokenChain sha256 hasher (history ++ more) covered receipts where
  genesis := chain.genesis
  successors := chain.successors
  tiles := chain.tiles
  inHistory := by
    rw [List.length_append]
    exact Nat.le_add_right_of_le chain.inHistory
  records verified member := by
    have same : verified.signed.receipt.recordsOf (history ++ more) =
        verified.signed.receipt.recordsOf history := by
      unfold recordsOf
      rcases chain.within member with empty | inside
      · rw [empty, List.take_zero, List.take_zero]
      · have room := chain.inHistory
        rw [List.drop_append_of_le_length (by omega), List.take_append_of_le_length]
        rw [List.length_drop]
        omega
    rw [same]
    exact chain.records verified member

theorem extend (chain : UnbrokenChain sha256 hasher history covered receipts)
    {verified : VerifiedContextEpochReceipt sha256}
    (first : verified.signed.receipt.firstSequence = covered)
    (room : covered + verified.signed.receipt.span ≤ history.length)
    (accepts : verified.signed.receipt.verifyRecords sha256 hasher
      (verified.signed.receipt.recordsOf history) = .ok ())
    (genesis : receipts = [] → verified.verifyGenesis = .ok ())
    (continues : ∀ previous ∈ receipts.getLast?,
      verified.verifySuccessor hasher previous = .ok ()) :
    UnbrokenChain sha256 hasher history (covered + verified.signed.receipt.span)
      (receipts ++ [verified]) where
  genesis := by
    cases receipts with
    | nil =>
      intro only member
      obtain rfl := Option.some.inj member
      exact genesis rfl
    | cons head rest => exact chain.genesis
  successors := by
    apply chain.successors.append (.singleton verified)
    intro previous last next member
    obtain rfl := Option.some.inj member
    exact continues previous last
  tiles := by
    rw [List.flatMap_append, chain.tiles, List.flatMap_singleton, range, first,
      List.range_eq_range', List.range_eq_range']
    have joined := @List.range'_append_1 0 covered verified.signed.receipt.span
    rw [Nat.zero_add] at joined
    exact joined
  inHistory := room
  records other member := by
    rcases List.mem_append.mp member with earlier | last
    · exact chain.records other earlier
    · obtain rfl := List.mem_singleton.mp last
      exact accepts

end UnbrokenChain

/-! ### Runs of the runtime -/

namespace ContextRuntime

/-- What happens to a runtime: an access, a change of the authority by its owner, or
an append through the shared witness log. -/
inductive RuntimeEvent where
  | accessed (access : Access) (outcome : Except Stop AccessReply)
  | administered
  | witnessed

def RuntimeEvent.sealedReceipt : RuntimeEvent → Option SignedContextEpochReceipt
  | .accessed (.sealEpoch _ _) (.ok (.epochSealed receipt _)) => some receipt
  | _ => none

variable {ρ κ : Type}

inductive Step (parameters : RuntimeParameters ρ κ) (here : ContextRuntime ρ κ) :
    RuntimeEvent → ContextRuntime ρ κ → Prop
  | accessed {fuel : Nat} {access : Access} {outcome : Except Stop AccessReply}
      {next : ContextRuntime ρ κ} :
      (serve parameters fuel access).runFrom here = some (outcome, next) →
      Step parameters here (.accessed access outcome) next
  | administered (authority : ContextAuthority) :
      Step parameters here .administered { here with authority := authority }
  | witnessed (call : WitnessCall) :
      Step parameters here .witnessed (here.withWitness
        (here.witness.apply parameters.witness.capacity parameters.witness.hasher call))

variable {parameters : RuntimeParameters ρ κ} {here next : ContextRuntime ρ κ}

/-- These calls were made on the log, and noted. -/
structure Appends (parameters : RuntimeParameters ρ κ) (here : ContextRuntime ρ κ)
    (calls : List WitnessCall) (next : ContextRuntime ρ κ) : Prop where
  witness : next.witness =
    here.witness.run parameters.witness.capacity parameters.witness.hasher calls
  recorded : next.recorded = here.recorded ++
    here.witness.produced parameters.witness.capacity parameters.witness.hasher calls

theorem Logs.appends {records : List WitnessRecord} (logs : Logs parameters here records next) :
    Appends parameters here (records.map .append) next where
  witness := by
    rw [logs.witness, WitnessLog.run, List.foldl_map]
    rfl
  recorded := logs.recorded

theorem withWitness_appends (call : WitnessCall) :
    Appends parameters here [call] (here.withWitness
      (here.witness.apply parameters.witness.capacity parameters.witness.hasher call)) where
  witness := rfl
  recorded := by
    rw [apply_eq_store, withWitness]
    simp [WitnessLog.store, produced]

/-- What one step does to the log and the cursor: records are appended and the cursor
stays, or an epoch is sealed. -/
inductive Effect (parameters : RuntimeParameters ρ κ) (here : ContextRuntime ρ κ) :
    RuntimeEvent → ContextRuntime ρ κ → Prop
  | kept {event : RuntimeEvent} {next : ContextRuntime ρ κ} (calls : List WitnessCall) :
      event.sealedReceipt = none → Appends parameters here calls next →
      next.receiptChain = here.receiptChain → Effect parameters here event next
  | sealedEpoch {request : ContextRequest} {arguments : SealArguments}
      {authorized : AuthorizedRequest} {unsigned : ContextEpochReceipt}
      {verified : VerifiedContextEpochReceipt parameters.witness.sha256} {sealTimestampNs : Nat}
      {nextCheckpoint : WitnessCheckpoint} {next : ContextRuntime ρ κ} :
      SealedEpoch parameters here request arguments authorized unsigned verified sealTimestampNs
        nextCheckpoint next →
      Effect parameters here
        (.accessed (.sealEpoch request arguments) (.ok (.epochSealed verified.signed nextCheckpoint)))
        next

theorem refused_unsealed (access : Access) (reason : Stop) :
    (RuntimeEvent.accessed access (.error reason)).sealedReceipt = none := by
  cases access <;> rfl

theorem completed_unsealed {access : Access} (plain : access.operation ≠ .sealReceipt)
    (reply : AccessReply) : (RuntimeEvent.accessed access (.ok reply)).sealedReceipt = none := by
  cases access <;> first | rfl | exact absurd rfl plain

theorem step_effect {event : RuntimeEvent} (step : Step parameters here event next) :
    Effect parameters here event next := by
  cases step with
  | accessed ran =>
    cases serve_ended ran with
    | refused reason quiet =>
      obtain ⟨_, logs, _⟩ := quiet.decided
      exact .kept _ (refused_unsealed _ _) logs.appends quiet.receiptChain
    | completed authorized plain completed sound =>
      exact .kept _ (completed_unsealed plain _) completed.logs.appends completed.receiptChain
    | sealedEpoch sealedEpoch => exact .sealedEpoch sealedEpoch
  | administered authority => exact .kept [] rfl ⟨rfl, (List.append_nil _).symm⟩ rfl
  | witnessed call => exact .kept [call] rfl (withWitness_appends call) rfl

theorem step_recorded {event : RuntimeEvent} (step : Step parameters here event next) :
    here.recorded <+: next.recorded := by
  cases step_effect step with
  | kept calls unsealed appends receiptChain => exact ⟨_, appends.recorded.symm⟩
  | sealedEpoch sealedEpoch => exact ⟨_, sealedEpoch.logs.recorded.symm⟩

/-- The cursor stands after the last sealed record: the calls before it are sealed,
those after it are not. -/
structure Anchored (parameters : RuntimeParameters ρ κ) (here : ContextRuntime ρ κ)
    (receipts : List (VerifiedContextEpochReceipt parameters.witness.sha256))
    (first second : List WitnessCall) : Prop where
  witness : here.witness = WitnessLog.new.run parameters.witness.capacity
    parameters.witness.hasher (first ++ second)
  recorded : here.recorded = WitnessLog.new.produced parameters.witness.capacity
    parameters.witness.hasher (first ++ second)
  cursor : here.receiptChain.nextCheckpoint =
    (WitnessLog.new.run parameters.witness.capacity parameters.witness.hasher first).checkpoint
  epochs : here.receiptChain.nextEpochId = receipts.length
  link : here.receiptChain.previousReceiptId = (receipts.getLast?.map fun verified =>
    verified.signed.receiptId parameters.witness.sha256).getD (Octets.zero 32)
  fresh : receipts = [] → first = []
  last : ∀ previous ∈ receipts.getLast?,
    previous.signed.receipt.epochId + 1 = receipts.length ∧
    previous.signed.receipt.lastSequence + 1 = first.length ∧
    advanceChain parameters.witness.hasher previous.signed.receipt.initialChainHash
      previous.signed.receipt.firstSequence previous.signed.receipt.recordCount =
        some here.receiptChain.nextCheckpoint.chainHash
  chain : UnbrokenChain parameters.witness.sha256 parameters.witness.hasher here.recorded
    first.length receipts

variable {receipts : List (VerifiedContextEpochReceipt parameters.witness.sha256)}
  {first second : List WitnessCall}

theorem anchored_withClock (actor : PartitionId) (authority : ContextAuthority) (resolver : ρ)
    (clock : κ) : Anchored parameters (withClock actor authority resolver clock) [] [] [] where
  witness := rfl
  recorded := rfl
  cursor := rfl
  epochs := rfl
  link := rfl
  fresh _ := rfl
  last _ member := by cases member
  chain := .nil _

theorem Anchored.kept (anchored : Anchored parameters here receipts first second)
    {calls : List WitnessCall} (appends : Appends parameters here calls next)
    (receiptChain : next.receiptChain = here.receiptChain) :
    Anchored parameters next receipts first (second ++ calls) where
  witness := by
    rw [appends.witness, anchored.witness, ← List.append_assoc, run_append _ calls]
  recorded := by
    rw [appends.recorded, anchored.recorded, anchored.witness, ← List.append_assoc,
      produced_append _ calls]
  cursor := by rw [receiptChain, anchored.cursor]
  epochs := by rw [receiptChain, anchored.epochs]
  link := by rw [receiptChain, anchored.link]
  fresh := anchored.fresh
  last := by
    rw [receiptChain]
    exact anchored.last
  chain := by
    rw [appends.recorded]
    exact anchored.chain.appended _

section Sealing

variable {request : ContextRequest} {arguments : SealArguments} {authorized : AuthorizedRequest}
  {unsigned : ContextEpochReceipt}
  {verified : VerifiedContextEpochReceipt parameters.witness.sha256} {sealTimestampNs : Nat}
  {nextCheckpoint : WitnessCheckpoint}

def decisionCall (witness : WitnessParameters) (authorized : AuthorizedRequest) : WitnessCall :=
  .append (authorized.recordOf witness .proofVerifiedP1)

theorem Anchored.epoch (anchored : Anchored parameters here receipts first second)
    (sealedEpoch : SealedEpoch parameters here request arguments authorized unsigned verified
      sealTimestampNs nextCheckpoint next)
    (fits : first.length + (second.length + 1) < 18446744073709551616) :
    ∃ head rest,
      (WitnessLog.new.run parameters.witness.capacity parameters.witness.hasher first).produced
        parameters.witness.capacity parameters.witness.hasher
        (second ++ [decisionCall parameters.witness authorized]) = head :: rest ∧
      nextCheckpoint = (WitnessLog.new.run parameters.witness.capacity parameters.witness.hasher
        (first ++ (second ++ [decisionCall parameters.witness authorized]))).checkpoint ∧
      Seals parameters.witness.sha256 parameters.witness.hasher receipts.length
        here.receiptChain.nextCheckpoint head rest here.receiptChain.previousReceiptId
        arguments.commitments unsigned := by
  obtain ⟨snapshot, copied, head, rest, taken, ends, records, seals⟩ := sealedEpoch.seals
  have logged := @logged_produced parameters.witness.capacity
    parameters.witness.hasher first (by omega)
  have log : parameters.witness.logged here.witness
      (authorized.recordOf parameters.witness .proofVerifiedP1) =
      (WitnessLog.new.run parameters.witness.capacity parameters.witness.hasher first).run
        parameters.witness.capacity parameters.witness.hasher
        (second ++ [decisionCall parameters.witness authorized]) := by
    rw [anchored.witness, run_append first, run_append second]
    rfl
  rw [log, anchored.cursor] at taken
  obtain ⟨head_eq, copied_eq⟩ := snapshot_taken logged (by
    rw [produced_length, List.length_append, List.length_singleton]
    exact fits) taken
  rw [anchored.epochs] at seals
  refine ⟨head, rest, copied_eq.symm.trans records, ?_, seals⟩
  rw [ends, head_eq, run_append first]

theorem Anchored.continues (anchored : Anchored parameters here receipts first second)
    (room : receipts.length + 1 ≤ u64Max) (fits : first.length ≤ u64Max) {head : WitnessRecord}
    {rest : List WitnessRecord} {commitments : EpochCommitments}
    (seals : Seals parameters.witness.sha256 parameters.witness.hasher
      receipts.length here.receiptChain.nextCheckpoint head rest
      here.receiptChain.previousReceiptId commitments verified.signed.receipt)
    (begins : verified.signed.receipt.firstSequence = first.length) :
    (receipts = [] → verified.verifyGenesis = .ok ()) ∧
      ∀ previous ∈ receipts.getLast?,
        verified.verifySuccessor parameters.witness.hasher previous = .ok () := by
  constructor
  · intro none
    have empty := anchored.fresh none
    have hash : here.receiptChain.nextCheckpoint.chainHash = 0 := by
      rw [anchored.cursor, empty]
      rfl
    have link := anchored.link
    simp only [none, List.getLast?_nil, Option.map_none, Option.getD_none] at link
    simp [verifyGenesis, begins, empty, seals.epochId, none,
      seals.initialChainHash, hash, seals.previousReceipt, link]
  · intro previous member
    obtain ⟨epoch, sequence, hash⟩ := anchored.last previous member
    have link := anchored.link
    rw [member, Option.map_some, Option.getD_some] at link
    simp only [verifySuccessor, epoch, sequence, hash, seals.epochId,
      seals.initialChainHash, seals.previousReceipt, link, begins, ne_eq, not_true_eq_false,
      or_self, if_false]
    rw [if_neg (by omega)]

/-- Where the epoch of a seal lies in the history. -/
structure EpochSpan (parameters : RuntimeParameters ρ κ) (first epoch : List WitnessCall)
    (receipt : ContextEpochReceipt) : Prop where
  begins : receipt.firstSequence = first.length
  span : receipt.span = epoch.length
  last : receipt.lastSequence + 1 = (first ++ epoch).length
  accepts : receipt.verifyRecords parameters.witness.sha256 parameters.witness.hasher
    (receipt.recordsOf (WitnessLog.new.produced parameters.witness.capacity
      parameters.witness.hasher (first ++ epoch))) = .ok ()
  advanced : advanceChain parameters.witness.hasher receipt.initialChainHash receipt.firstSequence
    receipt.recordCount = some (WitnessLog.new.run parameters.witness.capacity
      parameters.witness.hasher (first ++ epoch)).chainHash

theorem epochSpan_of_seals {epoch : List WitnessCall} {head : WitnessRecord}
    {rest : List WitnessRecord} {epochId : Nat} {previousReceipt : Octets 32}
    {commitments : EpochCommitments} {receipt : ContextEpochReceipt}
    (fits : first.length + epoch.length < 18446744073709551616)
    (slice : (WitnessLog.new.run parameters.witness.capacity parameters.witness.hasher first).produced
      parameters.witness.capacity parameters.witness.hasher epoch = head :: rest)
    (seals : Seals parameters.witness.sha256 parameters.witness.hasher epochId
      (WitnessLog.new.run parameters.witness.capacity parameters.witness.hasher first).checkpoint
      head rest previousReceipt commitments receipt) : EpochSpan parameters first epoch receipt := by
  have logged := @logged_produced parameters.witness.capacity
    parameters.witness.hasher first (by omega)
  have sequence : (WitnessLog.new.run parameters.witness.capacity parameters.witness.hasher
      first).sequence = first.length := logged.sequence.trans (produced_length first)
  have size : rest.length + 1 = epoch.length := by
    rw [← produced_length (N := parameters.witness.capacity) epoch, slice]
    rfl
  have begins : receipt.firstSequence = first.length := by
    obtain ⟨count, chained⟩ := seals.chained
    rw [seals.firstSequence, verifyChainFrom_first chained]
    exact sequence
  have span : receipt.span = epoch.length := by
    rw [span, seals.lastSequence, seals.firstSequence]
    omega
  constructor
  · exact begins
  · exact span
  · rw [seals.lastSequence, ← seals.firstSequence, begins, List.length_append]
    omega
  · rw [recordsOf, begins, span, produced_append, slice,
      List.drop_left' (produced_length first)]
    rw [List.take_of_length_le (by rw [List.length_cons, size])]
    exact seals.accepted
  · have advanced := @advanceChain_run parameters.witness.hasher parameters.witness.capacity
      (WitnessLog.new.run parameters.witness.capacity parameters.witness.hasher first) epoch
      (by omega)
    rw [sequence, ← size] at advanced
    rw [begins, seals.initialChainHash, seals.recordCount, run_append first]
    exact advanced

theorem Anchored.sealed (anchored : Anchored parameters here receipts first second)
    (sealedEpoch : SealedEpoch parameters here request arguments authorized unsigned verified
      sealTimestampNs nextCheckpoint next)
    (fits : next.recorded.length < 18446744073709551616) :
    Anchored parameters next (receipts ++ [verified])
      (first ++ (second ++ [decisionCall parameters.witness authorized]))
      [.append (verified.sealRecord authorized.actor.asU32 authorized.capabilityHash
        sealTimestampNs)] := by
  have appends := sealedEpoch.logs.appends
  have total : next.recorded.length = first.length + second.length + 2 := by
    rw [appends.recorded, anchored.recorded, List.length_append, produced_length,
      produced_length, List.length_append]
    rfl
  obtain ⟨head, rest, slice, ends, seals⟩ := anchored.epoch sealedEpoch (by omega)
  rw [← show verified.signed.receipt = unsigned by rw [sealedEpoch.signed]; rfl] at seals
  have spans : EpochSpan parameters first (second ++ [decisionCall parameters.witness authorized])
      verified.signed.receipt := by
    rw [anchored.cursor] at seals
    exact epochSpan_of_seals (by rw [List.length_append, List.length_singleton]; omega) slice seals
  have continues := anchored.continues (anchored.epochs ▸ sealedEpoch.room)
    (by unfold u64Max; omega) seals spans.begins
  have recorded : next.recorded = WitnessLog.new.produced parameters.witness.capacity
      parameters.witness.hasher (first ++ (second ++ [decisionCall parameters.witness authorized])) ++
      produced parameters.witness.capacity parameters.witness.hasher
        (WitnessLog.new.run parameters.witness.capacity parameters.witness.hasher
          (first ++ (second ++ [decisionCall parameters.witness authorized])))
        [.append (verified.sealRecord authorized.actor.asU32 authorized.capabilityHash
          sealTimestampNs)] := by
    rw [appends.recorded, anchored.recorded, anchored.witness, ← produced_append, ← produced_append]
    simp [decisionCall]
  have grown := anchored.chain.appended (here.witness.produced parameters.witness.capacity
    parameters.witness.hasher [decisionCall parameters.witness authorized])
  rw [anchored.recorded, anchored.witness, ← produced_append, List.append_assoc] at grown
  have covered : first.length + verified.signed.receipt.span =
      (first ++ (second ++ [decisionCall parameters.witness authorized])).length := by
    rw [spans.span, @List.length_append _ first]
  have extended := grown.extend spans.begins (by
    rw [covered, produced_length]) spans.accepts continues.1 continues.2
  constructor
  · rw [appends.witness, anchored.witness, ← run_append]
    simp [decisionCall]
  · rw [recorded, ← produced_append]
  · rw [sealedEpoch.receiptChain, ends]
  · rw [sealedEpoch.receiptChain, List.length_append, anchored.epochs]
    rfl
  · rw [sealedEpoch.receiptChain, List.getLast?_concat]
    rfl
  · simp
  · intro previous member
    rw [List.getLast?_concat] at member
    obtain rfl := Option.some.inj member
    refine ⟨?_, spans.last, ?_⟩
    · rw [seals.epochId, List.length_append, List.length_singleton]
    · rw [sealedEpoch.receiptChain, ends]
      exact spans.advanced
  · rw [recorded, ← covered]
    exact extended.appended _

end Sealing

theorem anchored_run {actor : PartitionId} {authority : ContextAuthority} {resolver : ρ} {clock : κ}
    {events : List RuntimeEvent}
    (run : Run (Step parameters) (withClock actor authority resolver clock) events here) :
    here.recorded.length < 18446744073709551616 →
      ∃ receipts first second, Anchored parameters here receipts first second ∧
        receipts.map (fun verified => verified.signed) =
          events.filterMap RuntimeEvent.sealedReceipt := by
  induction run with
  | nil => exact fun _ => ⟨[], [], [], anchored_withClock _ _ _ _, rfl⟩
  | snoc _ step ih =>
    intro fits
    have grown := (step_recorded step).length_le
    obtain ⟨receipts, first, second, anchored, events⟩ := ih (by omega)
    cases step_effect step with
    | kept calls unsealed appends receiptChain =>
      refine ⟨receipts, first, _, anchored.kept appends receiptChain, ?_⟩
      rw [events, List.filterMap_append]
      simp [unsealed]
    | sealedEpoch sealedEpoch =>
      refine ⟨_, _, _, anchored.sealed sealedEpoch fits, ?_⟩
      rw [List.map_append, events, List.filterMap_append]
      rfl

/-- In every run of a new runtime the sealed epochs form one chain over the history of the log; a
seal that fails leaves the cursor and records no seal. -/
theorem epochsUnbroken (parameters : RuntimeParameters ρ κ) (actor : PartitionId)
    (authority : ContextAuthority) (resolver : ρ) (clock : κ) (events : List RuntimeEvent)
    (here : ContextRuntime ρ κ)
    (run : Run (Step parameters) (withClock actor authority resolver clock) events here) :
    (here.recorded.length < 18446744073709551616 →
      WitnessLog.Logged parameters.witness.capacity here.witness here.recorded ∧
      ∃ receipts : List (VerifiedContextEpochReceipt parameters.witness.sha256),
        receipts.map (fun verified => verified.signed) =
          events.filterMap RuntimeEvent.sealedReceipt ∧
        UnbrokenChain parameters.witness.sha256 parameters.witness.hasher here.recorded
          here.receiptChain.nextCheckpoint.nextSequence receipts) ∧
    ∀ request arguments reason next,
      (sealEpochTransactional parameters request arguments).runFrom here =
        some (.error reason, next) →
      next.receiptChain = here.receiptChain ∧
      ∃ records, Logs parameters here records next ∧
        ∀ record ∈ records, record.actionKind ≠ ActionKind.contextEpochSeal.asU8 := by
  constructor
  · intro fits
    obtain ⟨receipts, first, second, anchored, sealedReceipts⟩ := anchored_run run fits
    have total : here.recorded.length = (first ++ second).length := by
      rw [anchored.recorded, produced_length]
    have logged := @logged_produced parameters.witness.capacity
      parameters.witness.hasher (first ++ second) (total ▸ fits)
    rw [← anchored.witness, ← anchored.recorded] at logged
    refine ⟨logged, receipts, sealedReceipts, ?_⟩
    have stands := @logged_produced parameters.witness.capacity
      parameters.witness.hasher first (by rw [List.length_append] at total; omega)
    rw [anchored.cursor, checkpoint, stands.sequence, produced_length]
    exact anchored.chain
  · intro request arguments reason next failed
    have quiet : Quiet parameters here (.sealEpoch request arguments) next := by
      have ensured : (sealEpochTransactional parameters request arguments).Ensures here _ _ :=
        sealEpochTransactional_spec request arguments
      rw [Ensures, failed] at ensured
      exact ensured
    obtain ⟨records, logs, decisions⟩ := quiet.decided
    refine ⟨quiet.receiptChain, records, logs, fun record member sealing => ?_⟩
    rcases decisions record member with allowed | denied
    · rw [sealing] at allowed
      cases allowed
    · rw [sealing] at denied
      cases denied

/-! ### Beyond the sequence numbers -/

def sampleResolver : ContextResolver Unit where
  resolve _ := throw .aliasNotFound
  list _ _ := throw .aliasNotFound
  tree _ _ := throw .aliasNotFound
  read _ := throw .aliasNotFound
  search _ _ _ := throw .aliasNotFound
  history _ _ := throw .aliasNotFound
  verify _ := throw .aliasNotFound
  put _ _ := throw .objectTableFull
  compareAndSwapAlias _ _ _ := throw .aliasTableFull
  forget _ _ := throw .aliasNotFound
  prepareExecute _ := throw .aliasNotFound

/-- A ring of one record, and hashes that never differ. -/
def sampleParameters : RuntimeParameters Unit Nat where
  capabilities := 2
  grants := 2
  witness := ⟨1, ⟨fun _ _ => 0, fun _ => 0⟩, fun _ => .zero 32⟩
  verify _ _ := .error .truncated
  resolver := sampleResolver
  timestampNs := logicalContextClock

def sampleTarget : RuvUri :=
  ⟨sampleHost, sampleTenant, sampleSubject, .memory, [], some ⟨.zero 32⟩, none⟩

def sampleAuthority : ContextAuthority :=
  let issued := ContextAuthority.issueRoot 2 2 (fun _ => .zero 32) 0
    ⟨sampleTarget.authority, sampleTarget.tenant, sampleTarget.subject, .memory, [], .all⟩ .prove
    ⟨1⟩ ⟨0⟩
  ((issued.runFrom (.new (.new .new))).map Prod.snd).getD (.new (.new .new))

def sampleRequest : ContextRequest := ⟨⟨0, 1⟩, .sealReceipt, sampleTarget⟩

def sampleArguments : SealArguments where
  scratch := [.zeroed]
  commitments := ⟨.zero 32, .zero 32, .zero 32, .zero 32⟩
  signer := ⟨.zero 32, fun _ => .zero 64, fun _ _ => .ok ()⟩
  persist _ _ := some (.ok ())

/-- A ring of four records, and hashes that differ. -/
def twoEpochs : RuntimeParameters Unit Nat :=
  { sampleParameters with
    witness := ⟨4, ⟨fun hash sequence => asU64 (hash + sequence + 1), asU32⟩,
      fun message => littleEndianOctets 32 (littleEndianValue message)⟩ }

def sealTwice (first second : SignedContextEpochReceipt × WitnessCheckpoint) : List RuntimeEvent :=
  [first, second].map fun answer =>
    .accessed (.sealEpoch sampleRequest { sampleArguments with scratch := [.zeroed, .zeroed] })
      (.ok (.epochSealed answer.1 answer.2))

/-- The second epoch seals the record of the first seal and its own admission. -/
theorem epochsUnbroken_second :
    ∃ first second here, Run (Step twoEpochs) (new ⟨1⟩ sampleAuthority ())
        (sealTwice first second) here ∧
      ∃ receipts, receipts.map (fun verified => verified.signed) = [first.1, second.1] ∧
        UnbrokenChain twoEpochs.witness.sha256 twoEpochs.witness.hasher here.recorded 3 receipts := by
  have ran : ∃ first second here, Run (Step twoEpochs) (new ⟨1⟩ sampleAuthority ())
      (sealTwice first second) here ∧ here.recorded.length = 4 ∧
      here.receiptChain.nextCheckpoint.nextSequence = 3 :=
    ⟨(_, _), (_, _), _, .cons (.accessed (show (serve twoEpochs 0 _).runFrom _ = _ from rfl)) <|
      .single (.accessed (show (serve twoEpochs 0 _).runFrom _ = _ from rfl)), rfl, rfl⟩
  obtain ⟨first, second, here, run, four, covered⟩ := ran
  obtain ⟨_, receipts, sealedReceipts, chain⟩ :=
    (epochsUnbroken twoEpochs _ _ _ _ _ here run).1 (by rw [four]; decide)
  exact ⟨first, second, here, run, receipts, sealedReceipts, covered ▸ chain⟩

/-- A request of another operation than the one it is used for. -/
def sampleDenied : Access := .resolve ⟨⟨0, 1⟩, .list, sampleTarget⟩

def sampleDenial : RuntimeEvent := .accessed sampleDenied (.error (.refused .operationMismatch))

def afterDenial (here : ContextRuntime Unit Nat) : ContextRuntime Unit Nat :=
  { here.withWitness (sampleParameters.witness.logged here.witness
      (contextRecord sampleParameters.witness.sha256 .proofRejected .list here.actor
        (handleFingerprint ⟨0, 1⟩) (logicalContextClock here.clock).1 sampleTarget)) with
    clock := (logicalContextClock here.clock).2 }

theorem serve_sampleDenied (here : ContextRuntime Unit Nat) :
    (serve sampleParameters 0 sampleDenied).runFrom here =
      some (.error (.refused .operationMismatch), afterDenial here) := rfl

/-- After some denials the log has one record for each. -/
structure Turned (turns : Nat) (here : ContextRuntime Unit Nat) : Prop where
  actor : here.actor = ⟨1⟩
  authority : here.authority = sampleAuthority
  writePos : here.witness.writePos = 0
  chainHash : here.witness.chainHash = 0
  sequence : here.witness.sequence = asU64 turns
  receiptChain : here.receiptChain = .genesis ⟨0, 0⟩
  clock : 1 ≤ here.clock
  recorded : ∃ denial, [denial] <+: here.recorded ∧ denial.timestampNs = 0

theorem Turned.afterDenial {turns : Nat} {here : ContextRuntime Unit Nat}
    (turned : Turned turns here) : Turned (turns + 1) (afterDenial here) where
  actor := turned.actor
  authority := turned.authority
  writePos := Nat.mod_one _
  chainHash := rfl
  sequence := by
    show asU64 (here.witness.sequence + 1) = _
    rw [turned.sequence]
    exact Nat.mod_add_mod turns _ 1
  receiptChain := turned.receiptChain
  clock := by
    have later := turned.clock
    show 1 ≤ min (here.clock + 1) u64Max
    unfold u64Max
    omega
  recorded := by
    obtain ⟨denial, recorded, timestamp⟩ := turned.recorded
    exact ⟨denial, recorded.trans (List.prefix_append _ _), timestamp⟩

theorem run_denials (turns : Nat) : ∃ here,
    Run (Step sampleParameters) (new ⟨1⟩ sampleAuthority ())
      (List.replicate (turns + 1) sampleDenial) here ∧ Turned (turns + 1) here := by
  induction turns with
  | zero =>
    refine ⟨_, .single (.accessed (serve_sampleDenied _)), ?_⟩
    exact ⟨rfl, rfl, rfl, rfl, rfl, rfl, by decide, _, List.prefix_rfl, rfl⟩
  | succ turns ih =>
    obtain ⟨here, run, turned⟩ := ih
    refine ⟨_, ?_, turned.afterDenial⟩
    rw [List.replicate_succ']
    exact run.snoc (.accessed (serve_sampleDenied here))

theorem runFrom_authorize {authorized : AuthorizedRequest} {log : WitnessLog}
    {request : ContextRequest} {operation : ContextOperation}
    (allowed : (here.authority.authorize parameters.witness parameters.capabilities here.actor
      (parameters.timestampNs here.clock).1 request operation).runFrom here.witness =
        some (.ok authorized, log)) :
    (authorize parameters request operation).runFrom here = some (.ok authorized,
      { here with clock := (parameters.timestampNs here.clock).2 }.withWitness log) := by
  unfold authorize nextTimestamp onWitness onPart
  simp only [runFrom_bind, runFrom_get, runFrom_set, runFrom_pure, runFrom_translate, allowed]
  rfl

theorem seal_succeeds {mid : ContextRuntime ρ κ} {request : ContextRequest}
    {arguments : SealArguments} {authorized : AuthorizedRequest} {unsigned : ContextEpochReceipt}
    {nextCheckpoint : WitnessCheckpoint}
    {verified : VerifiedContextEpochReceipt parameters.witness.sha256}
    (granted : (authorize parameters request .sealReceipt).runFrom here =
      some (.ok authorized, mid))
    (room : mid.receiptChain.nextEpochId + 1 ≤ u64Max)
    (identity : authorized.target.revision.map Revision.bytes =
      some arguments.commitments.rvfIdentity)
    (sealing : sealFromLog parameters.witness.sha256 parameters.witness.capacity
      parameters.witness.hasher mid.receiptChain.nextEpochId mid.witness
      mid.receiptChain.nextCheckpoint arguments.scratch mid.receiptChain.previousReceiptId
      arguments.commitments = .ok (unsigned, nextCheckpoint))
    (verifies : (unsigned.sign parameters.witness.sha256 arguments.signer).verify
      parameters.witness.sha256 arguments.signer = .ok verified)
    (persists : arguments.persist (unsigned.sign parameters.witness.sha256 arguments.signer)
      ⟨nextCheckpoint, mid.receiptChain.nextEpochId + 1,
        (unsigned.sign parameters.witness.sha256 arguments.signer).receiptId
          parameters.witness.sha256⟩ = some (.ok ())) :
    (sealEpochTransactional parameters request arguments).Ensures here
      (fun result _ => result =
        (unsigned.sign parameters.witness.sha256 arguments.signer, nextCheckpoint))
      fun _ _ => False := by
  unfold sealEpochTransactional
  rw [ensures_bind, Ensures, granted]
  simp only [ensures_bind, ensures_get, refuseWhen, ensures_throwIf, ensures_translate,
    ensures_orRefusal, ensures_orThrow, sealing, identity]
  simp [nextTimestamp, onWitness, emitRecord, verifies, persists]
  exact room

theorem sealFromLog_wrapped (log : WitnessLog) (record : WitnessRecord) :
    ∃ unsigned checkpoint, sealFromLog sampleParameters.witness.sha256 1
        sampleParameters.witness.hasher 0
        (sampleParameters.witness.logged { log with writePos := 0, chainHash := 0, sequence := 0 }
          record) ⟨0, 0⟩
        sampleArguments.scratch (.zero 32) sampleArguments.commitments = .ok (unsigned, checkpoint) ∧
      unsigned.firstSequence = 0 ∧ unsigned.lastSequence = 0 ∧
      unsigned.startedNs = record.timestampNs := by
  have snapshot : (sampleParameters.witness.logged
      { log with writePos := 0, chainHash := 0, sequence := 0 } record).snapshotSince 1
      ⟨0, 0⟩ sampleArguments.scratch = (.ok ⟨1, ⟨1, 0⟩⟩,
        [{ record with sequence := 0, prevHash := 0, recordHash := 0 }]) := by
    simp [snapshotSince, WitnessParameters.logged, WitnessLog.append, WitnessLog.store,
      sampleParameters, sampleArguments, asU64, copySince, stamp,
      checkpoint, Except.map]
  unfold sealFromLog
  rw [snapshot]
  exact ⟨_, _, rfl, rfl, rfl, Nat.min_self _⟩

theorem Turned.wrapped {here : ContextRuntime Unit Nat} {turns : Nat} (turned : Turned turns here)
    (zero : asU64 turns = 0) :
    { here.witness with writePos := 0, chainHash := 0, sequence := 0 } = here.witness := by
  obtain ⟨_, _, writePos, chainHash, sequence, _, _, _⟩ := turned
  rw [zero] at sequence
  obtain ⟨_, _, _, ⟨_, _, _, _, _⟩, _, _, _, _⟩ := here
  dsimp only at *
  rw [writePos, chainHash, sequence]

theorem Turned.sealed {here : ContextRuntime Unit Nat} {turns : Nat} (turned : Turned turns here)
    (zero : asU64 turns = 0) : ∃ receipt checkpoint next,
      (serve sampleParameters 0 (.sealEpoch sampleRequest sampleArguments)).runFrom here =
        some (.ok (.epochSealed receipt checkpoint), next) ∧
      receipt.receipt.firstSequence = 0 ∧ receipt.receipt.span = 1 ∧
      receipt.receipt.startedNs = here.clock := by
  obtain ⟨authorized, allowed, target, timestamp⟩ :=
    @ContextAuthority.authorize_admits sampleParameters.witness 2 sampleAuthority ⟨1⟩ here.clock
      sampleRequest .sealReceipt here.witness _ _ ⟨rfl, rfl⟩ rfl rfl ⟨rfl, rfl⟩ rfl rfl
  rw [← turned.actor, ← turned.authority] at allowed
  have granted := @runFrom_authorize _ _ sampleParameters here _ _ _ _ allowed
  obtain ⟨unsigned, checkpoint, sealing, first, last, started⟩ :=
    sealFromLog_wrapped here.witness
      (authorized.recordOf sampleParameters.witness .proofVerifiedP1)
  rw [turned.wrapped zero] at sealing
  have ensures : (sealEpochTransactional sampleParameters sampleRequest sampleArguments).Ensures here
      (fun result _ => result = (unsigned.sign sampleParameters.witness.sha256
        sampleArguments.signer, checkpoint))
      fun _ _ => False := by
    refine seal_succeeds granted ?_ ?_ ?_ rfl rfl
    · show here.receiptChain.nextEpochId + 1 ≤ u64Max
      rw [turned.receiptChain]
      decide
    · rw [target]
      rfl
    · show sealFromLog _ _ _ here.receiptChain.nextEpochId _
        here.receiptChain.nextCheckpoint _ here.receiptChain.previousReceiptId _ = _
      rw [turned.receiptChain]
      exact sealing
  rcases ensures.outcome with ⟨result, next, ran, rfl⟩ | ⟨_, _, _, impossible⟩
  · refine ⟨unsigned.sign sampleParameters.witness.sha256 sampleArguments.signer, checkpoint, next,
      ?_, first, ?_, started.trans timestamp⟩
    · unfold serve
      dsimp only
      rw [← bind_pure_comp, runFrom_bind, ran]
      rfl
    · show unsigned.lastSequence + 1 - unsigned.firstSequence = 1
      rw [first, last]
  · exact impossible.elim

theorem bounds_of_accepted {sha256 : List UInt8 → Octets 32} {hasher : ChainHasher}
    {receipt : ContextEpochReceipt} {records : List WitnessRecord}
    (accepted : receipt.verifyRecords sha256 hasher records = .ok ()) :
    timestampBounds records = (receipt.startedNs, receipt.endedNs) := by
  by_contra other
  cases records with
  | nil =>
    simp only [ContextEpochReceipt.verifyRecords] at accepted
    split_ifs at accepted
  | cons first rest =>
    simp only [ContextEpochReceipt.verifyRecords, other, ne_eq, not_false_eq_true, if_true]
      at accepted
    split_ifs at accepted

/-- After `2^64` denials a first epoch is sealed that begins at sequence zero and does
not contain the first record of the log. -/
theorem epochsUnbroken_wraps :
    ∃ events here, Run (Step sampleParameters) (new ⟨1⟩ sampleAuthority ()) events here ∧
      ¬ ∃ receipts covered, receipts.map (fun verified => verified.signed) =
          events.filterMap RuntimeEvent.sealedReceipt ∧
        UnbrokenChain sampleParameters.witness.sha256 sampleParameters.witness.hasher here.recorded
          covered receipts := by
  obtain ⟨here, run, turned⟩ := run_denials 18446744073709551615
  obtain ⟨receipt, ended, next, ran, begins, span, started⟩ := turned.sealed (by decide)
  refine ⟨_, next, run.snoc (.accessed ran), ?_⟩
  rintro ⟨receipts, covered, sealedReceipts, chain⟩
  have member : receipt ∈ receipts.map fun verified => verified.signed := by
    rw [sealedReceipts, List.filterMap_append]
    exact List.mem_append_right _ List.mem_cons_self
  obtain ⟨verified, among, signed⟩ := List.mem_map.mp member
  have accepted := chain.records verified among
  rw [signed] at accepted
  obtain ⟨denial, early, timestamp⟩ := turned.recorded
  obtain ⟨rest, recorded⟩ := early.trans (step_recorded (.accessed ran))
  rw [recordsOf, begins, span, ← recorded] at accepted
  have bounds := bounds_of_accepted accepted
  have clock := turned.clock
  simp [timestampBounds, timestamp] at bounds
  omega

end ContextRuntime

end Rvm.Context
