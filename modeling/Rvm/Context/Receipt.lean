import Rvm.Foundation.Bytes
import Rvm.Foundation.Call
import Rvm.Foundation.Text
import Rvm.Witness.Signer
import Rvm.Witness.Snapshot

/-!
Owns the epoch receipts of `rvm-context/src/receipt.rs`: sealing a contiguous slice of the
witness log, signing, the identifier, the checks of records, genesis and succession, and the
fixed wire form of a signed receipt, which decoding inverts. SHA-256 and the signer are
parameters.
-/

namespace Rvm.Context

open Foundation Witness List

def contextReceiptVersion : Nat := 1
def maxContextEpochRecords : Nat := 262144

def receiptMagic : List UInt8 := utf8 "RUCR".toList
def signingDomain : List UInt8 := utf8 "RUV-CONTEXT-EPOCH-RECEIPT-V1".toList
def signedIdDomain : List UInt8 := utf8 "RUV-CONTEXT-EPOCH-RECEIPT-ID-V1".toList
def leafDomain : List UInt8 := utf8 "RUV-CONTEXT-WITNESS-LEAF-V1".toList
def nodeDomain : List UInt8 := utf8 "RUV-CONTEXT-WITNESS-NODE-V1".toList

inductive SignatureError where
  | badSignature | unknownKey | badMeasurement | expiredCollateral | replay | unsupportedPlatform
  | malformedInput
deriving DecidableEq, Repr

/-- Failure while sealing or validating a context epoch receipt. -/
inductive ContextReceiptError where
  | emptyEpoch | tooManyRecords | sequenceRange | timestampBounds
  | chain (error : ChainIntegrityError)
  | snapshot (error : SnapshotSinceError)
  | signerMismatch
  | signature (error : SignatureError)
  | encoding (message : String)
  | witnessRootMismatch | receiptContinuity
deriving DecidableEq, Repr

structure ContextEpochReceipt where
  epochId : Nat
  firstSequence : Nat
  lastSequence : Nat
  recordCount : Nat
  startedNs : Nat
  endedNs : Nat
  initialChainHash : Nat
  previousReceipt : Octets 32
  namespaceRoot : Octets 32
  rvfIdentity : Octets 32
  policyHash : Octets 32
  detailRoot : Octets 32
  witnessRoot : Octets 32
deriving DecidableEq

/-! ### Commitments -/

section Commitments

variable (sha256 : List UInt8 → Octets 32)

/-- The parents of a level; an odd last node is its own sibling. -/
def merkleParents : List (Octets 32) → List (Octets 32)
  | [] => []
  | [last] => [sha256 (nodeDomain ++ last.toList ++ last.toList)]
  | left :: right :: rest =>
    sha256 (nodeDomain ++ left.toList ++ right.toList) :: merkleParents rest

/-- The loop over the levels; each is shorter than the one before. -/
def merkleLevels : Nat → List (Octets 32) → List (Octets 32)
  | 0, level => level
  | rounds + 1, level =>
    if level.length > 1 then merkleLevels rounds (merkleParents sha256 level) else level

def merkleRoot (records : List WitnessRecord) : Octets 32 :=
  let leaves := records.map fun record => sha256 (leafDomain ++ recordToBytes record)
  (merkleLevels sha256 leaves.length leaves).headD (Octets.zero 32)

end Commitments

def timestampBounds (records : List WitnessRecord) : Nat × Nat :=
  let initial := (records.head?.map WitnessRecord.timestampNs).getD 0
  records.foldl (fun bounds record =>
    (min bounds.1 record.timestampNs, max bounds.2 record.timestampNs)) (initial, initial)

/-! ### Receipts -/

/-- What the governed runtime commits to beside the records. -/
structure EpochCommitments where
  namespaceRoot : Octets 32
  rvfIdentity : Octets 32
  policyHash : Octets 32
  detailRoot : Octets 32

namespace ContextEpochReceipt

def sealRecords (sha256 : List UInt8 → Octets 32) (hasher : ChainHasher) (epochId : Nat)
    (checkpoint : WitnessCheckpoint) (records : List WitnessRecord) (previousReceipt : Octets 32)
    (commitments : EpochCommitments) : Except ContextReceiptError ContextEpochReceipt :=
  match records with
  | [] => .error .emptyEpoch
  | first :: rest =>
    if records.length > maxContextEpochRecords then .error .tooManyRecords
    else
      match verifyChainFrom hasher records checkpoint.chainHash checkpoint.nextSequence with
      | .error e => .error (.chain e)
      | .ok _ =>
        let last := rest.getLastD first
        let bounds := timestampBounds records
        let expectedLast := first.sequence + (records.length - 1)
        if expectedLast > u64Max ∨ last.sequence ≠ expectedLast then .error .sequenceRange
        else
          .ok
            { epochId := epochId
              firstSequence := first.sequence
              lastSequence := last.sequence
              recordCount := records.length
              startedNs := bounds.1
              endedNs := bounds.2
              initialChainHash := checkpoint.chainHash
              previousReceipt := previousReceipt
              namespaceRoot := commitments.namespaceRoot
              rvfIdentity := commitments.rvfIdentity
              policyHash := commitments.policyHash
              detailRoot := commitments.detailRoot
              witnessRoot := merkleRoot sha256 records }

/-- What a sealed slice is: not empty, short, chained from the checkpoint and
contiguous; the receipt commits to it. -/
structure Seals (sha256 : List UInt8 → Octets 32) (hasher : ChainHasher) (epochId : Nat)
    (checkpoint : WitnessCheckpoint) (first : WitnessRecord) (rest : List WitnessRecord)
    (previousReceipt : Octets 32) (commitments : EpochCommitments)
    (receipt : ContextEpochReceipt) : Prop where
  short : (first :: rest).length ≤ maxContextEpochRecords
  chained : ∃ count, verifyChainFrom hasher (first :: rest) checkpoint.chainHash
    checkpoint.nextSequence = .ok count
  last : (rest.getLastD first).sequence = first.sequence + rest.length
  bounded : first.sequence + rest.length ≤ u64Max
  epochId : receipt.epochId = epochId
  firstSequence : receipt.firstSequence = first.sequence
  lastSequence : receipt.lastSequence = first.sequence + rest.length
  recordCount : receipt.recordCount = (first :: rest).length
  bounds : (receipt.startedNs, receipt.endedNs) = timestampBounds (first :: rest)
  initialChainHash : receipt.initialChainHash = checkpoint.chainHash
  previousReceipt : receipt.previousReceipt = previousReceipt
  rvfIdentity : receipt.rvfIdentity = commitments.rvfIdentity
  witnessRoot : receipt.witnessRoot = merkleRoot sha256 (first :: rest)

theorem seals_of_sealRecords {sha256 : List UInt8 → Octets 32} {hasher : ChainHasher}
    {epochId : Nat} {checkpoint : WitnessCheckpoint} {records : List WitnessRecord}
    {previousReceipt : Octets 32} {commitments : EpochCommitments} {receipt : ContextEpochReceipt}
    (sealing : sealRecords sha256 hasher epochId checkpoint records previousReceipt commitments =
      .ok receipt) :
    ∃ first rest, records = first :: rest ∧
      Seals sha256 hasher epochId checkpoint first rest previousReceipt commitments receipt := by
  cases records with
  | nil => cases sealing
  | cons first rest =>
    simp only [sealRecords] at sealing
    split at sealing
    · cases sealing
    · rename_i short
      split at sealing
      · cases sealing
      · rename_i count chained
        split at sealing
        · cases sealing
        · rename_i contiguous
          simp only [length_cons, Nat.add_sub_cancel, not_or, not_not] at contiguous
          cases sealing
          exact ⟨first, rest, rfl, Nat.not_lt.mp short, ⟨count, chained⟩, contiguous.2,
            Nat.not_lt.mp contiguous.1, rfl, rfl, contiguous.2, rfl, rfl, rfl, rfl, rfl, rfl⟩

def sealFromLog (sha256 : List UInt8 → Octets 32) (capacity : Nat) (hasher : ChainHasher)
    (epochId : Nat) (log : WitnessLog) (checkpoint : WitnessCheckpoint)
    (scratch : List WitnessRecord) (previousReceipt : Octets 32)
    (commitments : EpochCommitments) :
    Except ContextReceiptError (ContextEpochReceipt × WitnessCheckpoint) :=
  let (result, copied) := log.snapshotSince capacity checkpoint scratch
  match result with
  | .error e => .error (.snapshot e)
  | .ok snapshot =>
    match sealRecords sha256 hasher epochId checkpoint (copied.take snapshot.count) previousReceipt
        commitments with
    | .error e => .error e
    | .ok receipt => .ok (receipt, snapshot.endCheckpoint)

def verifyRecords (sha256 : List UInt8 → Octets 32) (hasher : ChainHasher)
    (receipt : ContextEpochReceipt) (records : List WitnessRecord) :
    Except ContextReceiptError Unit :=
  if receipt.recordCount > maxContextEpochRecords then .error .tooManyRecords
  else if records.length ≠ receipt.recordCount then .error .sequenceRange
  else
    match records with
    | [] => .error .sequenceRange
    | first :: rest =>
      if first.sequence ≠ receipt.firstSequence ∨
          (rest.getLastD first).sequence ≠ receipt.lastSequence then .error .sequenceRange
      else if timestampBounds records ≠ (receipt.startedNs, receipt.endedNs) then
        .error .timestampBounds
      else
        match verifyChainFrom hasher records receipt.initialChainHash receipt.firstSequence with
        | .error e => .error (.chain e)
        | .ok _ =>
          if merkleRoot sha256 records ≠ receipt.witnessRoot then .error .witnessRootMismatch
          else .ok ()

def encodeUnsigned (receipt : ContextEpochReceipt) : List UInt8 :=
  receiptMagic ++ littleEndianBytes 2 contextReceiptVersion ++ List.replicate 2 0 ++
    littleEndianBytes 8 receipt.epochId ++ littleEndianBytes 8 receipt.firstSequence ++
    littleEndianBytes 8 receipt.lastSequence ++ littleEndianBytes 4 receipt.recordCount ++
    List.replicate 4 0 ++ littleEndianBytes 8 receipt.startedNs ++
    littleEndianBytes 8 receipt.endedNs ++ littleEndianBytes 8 receipt.initialChainHash ++
    receipt.previousReceipt.toList ++ receipt.namespaceRoot.toList ++ receipt.rvfIdentity.toList ++
    receipt.policyHash.toList ++ receipt.detailRoot.toList ++ receipt.witnessRoot.toList

def signingDigest (sha256 : List UInt8 → Octets 32) (receipt : ContextEpochReceipt)
    (signerId : Octets 32) : Octets 32 :=
  sha256 (signingDomain ++ receipt.encodeUnsigned ++ signerId.toList)

end ContextEpochReceipt

/-! ### Signatures -/

/-- A signer of 32-byte digests. -/
structure WitnessSigner where
  signerId : Octets 32
  sign : Octets 32 → Octets 64
  verify : Octets 32 → Octets 64 → Except SignatureError Unit

structure SignedContextEpochReceipt where
  receipt : ContextEpochReceipt
  signerId : Octets 32
  signature : Octets 64
deriving DecidableEq

def ContextEpochReceipt.sign (sha256 : List UInt8 → Octets 32) (receipt : ContextEpochReceipt)
    (signer : WitnessSigner) : SignedContextEpochReceipt :=
  ⟨receipt, signer.signerId, signer.sign (receipt.signingDigest sha256 signer.signerId)⟩

structure VerifiedContextEpochReceipt (sha256 : List UInt8 → Octets 32) where
  signed : SignedContextEpochReceipt
  authentic : ∃ signer : WitnessSigner, signer.signerId = signed.signerId ∧
    signer.verify (signed.receipt.signingDigest sha256 signed.signerId) signed.signature = .ok ()

namespace SignedContextEpochReceipt

def verify (sha256 : List UInt8 → Octets 32) (signed : SignedContextEpochReceipt)
    (signer : WitnessSigner) :
    Except ContextReceiptError (VerifiedContextEpochReceipt sha256) :=
  if known : signer.signerId ≠ signed.signerId then .error .signerMismatch
  else
    match verified : signer.verify (signed.receipt.signingDigest sha256 signed.signerId)
        signed.signature with
    | .error e => .error (.signature e)
    | .ok () => .ok ⟨signed, signer, Decidable.not_not.mp known, verified⟩

def toBytes (signed : SignedContextEpochReceipt) : List UInt8 :=
  signed.receipt.encodeUnsigned ++ signed.signerId.toList ++ signed.signature.toList

def receiptId (sha256 : List UInt8 → Octets 32) (signed : SignedContextEpochReceipt) : Octets 32 :=
  sha256 (signedIdDomain ++ signed.toBytes)

end SignedContextEpochReceipt

/-! ### Continuity -/

/-- The chain hash after the sequences of a range; none where a sequence
overflows. -/
def advanceChain (hasher : ChainHasher) : Nat → Nat → Nat → Option Nat
  | chainHash, _, 0 => some chainHash
  | chainHash, sequence, count + 1 =>
    if sequence > u64Max then none
    else advanceChain hasher (hasher.computeChainHash chainHash sequence) (sequence + 1) count

namespace VerifiedContextEpochReceipt

variable {sha256 : List UInt8 → Octets 32}

def verifyGenesis (verified : VerifiedContextEpochReceipt sha256) :
    Except ContextReceiptError Unit :=
  let receipt := verified.signed.receipt
  if receipt.epochId ≠ 0 ∨ receipt.firstSequence ≠ 0 ∨ receipt.initialChainHash ≠ 0 ∨
      receipt.previousReceipt ≠ Octets.zero 32 then .error .receiptContinuity
  else .ok ()

def verifySuccessor (hasher : ChainHasher)
    (verified previous : VerifiedContextEpochReceipt sha256) : Except ContextReceiptError Unit :=
  let receipt := verified.signed.receipt
  let prior := previous.signed.receipt
  if prior.epochId + 1 > u64Max ∨ prior.lastSequence + 1 > u64Max then .error .receiptContinuity
  else
    match advanceChain hasher prior.initialChainHash prior.firstSequence prior.recordCount with
    | none => .error .receiptContinuity
    | some expectedInitialChainHash =>
      if receipt.previousReceipt ≠ previous.signed.receiptId sha256 ∨
          receipt.epochId ≠ prior.epochId + 1 ∨
          receipt.firstSequence ≠ prior.lastSequence + 1 ∨
          receipt.initialChainHash ≠ expectedInitialChainHash then .error .receiptContinuity
      else .ok ()

def sealRecord (verified : VerifiedContextEpochReceipt sha256)
    (actorPartitionId capabilityHash timestampNs : Nat) : WitnessRecord :=
  let id := verified.signed.receiptId sha256
  { WitnessRecord.zeroed with
    actionKind := ActionKind.contextEpochSeal.asU8
    proofTier := 1
    actorPartitionId := actorPartitionId
    targetObjectId := littleEndianValue (id.toList.take 8)
    capabilityHash := capabilityHash
    payload := littleEndian verified.signed.receipt.lastSequence
    aux := Vector.ofFn fun i => verified.signed.receipt.witnessRoot.toList.getD i 0
    timestampNs := timestampNs }

end VerifiedContextEpochReceipt

open Foundation.Call

/-! ### The wire form -/

def contextReceiptEncodedSize : Nat := 352

theorem timestampBounds_timed {records : List WitnessRecord}
    (timed : ∀ record ∈ records, record.timestampNs ≤ u64Max) :
    (timestampBounds records).1 ≤ (timestampBounds records).2 ∧
      (timestampBounds records).2 ≤ u64Max := by
  have folded : ∀ (records : List WitnessRecord) (bounds : Nat × Nat),
      (∀ record ∈ records, record.timestampNs ≤ u64Max) → bounds.1 ≤ bounds.2 →
      bounds.2 ≤ u64Max →
      let final := records.foldl (fun bounds record =>
        (min bounds.1 record.timestampNs, max bounds.2 record.timestampNs)) bounds
      final.1 ≤ final.2 ∧ final.2 ≤ u64Max := by
    intro records
    induction records with
    | nil => exact fun _ _ ordered fits => ⟨ordered, fits⟩
    | cons head rest ih =>
      intro bounds timed ordered fits
      have first : head.timestampNs ≤ u64Max := timed head mem_cons_self
      apply ih _ fun record member => timed record (mem_cons_of_mem _ member)
      · exact (Nat.min_le_left _ _).trans (ordered.trans (Nat.le_max_left _ _))
      · exact Nat.max_le.mpr ⟨fits, first⟩
  apply folded records _ timed (Nat.le_refl _)
  cases records with
  | nil => exact Nat.zero_le _
  | cons head rest => exact timed head mem_cons_self

namespace SignedContextEpochReceipt

/-- The structural checks; the signature is not authenticated. -/
def fromBytes (data : List UInt8) : Call ContextReceiptError Unit SignedContextEpochReceipt := do
  throwIf (data.length ≠ contextReceiptEncodedSize) (.encoding "wrong byte length")
  throwIf (data.take 4 ≠ receiptMagic) (.encoding "wrong magic")
  let version ← orPanic (littleEndianAt 2 data 4)
  throwIf (version ≠ contextReceiptVersion) (.encoding "unsupported version")
  let reserved ← orPanic (octetsAt 2 data 6)
  let padding ← orPanic (octetsAt 4 data 36)
  throwIf (reserved ≠ .zero 2 ∨ padding ≠ .zero 4) (.encoding "reserved bytes are nonzero")
  let firstSequence ← orPanic (littleEndianAt 8 data 16)
  let lastSequence ← orPanic (littleEndianAt 8 data 24)
  let recordCount ← orPanic (littleEndianAt 4 data 32)
  throwIf (recordCount > maxContextEpochRecords) .tooManyRecords
  -- the distance is checked before one is added
  throwIf (recordCount = 0 ∨ lastSequence < firstSequence ∨
    checkedAdd64 (lastSequence - firstSequence) 1 ≠ some recordCount) .sequenceRange
  let startedNs ← orPanic (littleEndianAt 8 data 40)
  let endedNs ← orPanic (littleEndianAt 8 data 48)
  throwIf (endedNs < startedNs) .timestampBounds
  let epochId ← orPanic (littleEndianAt 8 data 8)
  let initialChainHash ← orPanic (littleEndianAt 8 data 56)
  let previousReceipt ← orPanic (octetsAt 32 data 64)
  let namespaceRoot ← orPanic (octetsAt 32 data 96)
  let rvfIdentity ← orPanic (octetsAt 32 data 128)
  let policyHash ← orPanic (octetsAt 32 data 160)
  let detailRoot ← orPanic (octetsAt 32 data 192)
  let witnessRoot ← orPanic (octetsAt 32 data 224)
  let signerId ← orPanic (octetsAt 32 data 256)
  let signature ← orPanic (octetsAt 64 data 288)
  return ⟨⟨epochId, firstSequence, lastSequence, recordCount, startedNs, endedNs,
    initialChainHash, previousReceipt, namespaceRoot, rvfIdentity, policyHash, detailRoot,
    witnessRoot⟩, signerId, signature⟩

/-- What every signed receipt has: its fields are private, and both sealing and
decoding give it. -/
structure WellFormed (signed : SignedContextEpochReceipt) : Prop where
  epochId : signed.receipt.epochId ≤ u64Max
  lastSequence : signed.receipt.lastSequence ≤ u64Max
  positive : 0 < signed.receipt.recordCount
  short : signed.receipt.recordCount ≤ maxContextEpochRecords
  range : signed.receipt.firstSequence + signed.receipt.recordCount =
    signed.receipt.lastSequence + 1
  bounds : signed.receipt.startedNs ≤ signed.receipt.endedNs
  endedNs : signed.receipt.endedNs ≤ u64Max
  initialChainHash : signed.receipt.initialChainHash ≤ u64Max

/-! ### The layout -/

def fields (signed : SignedContextEpochReceipt) : List (List UInt8) :=
  let receipt := signed.receipt
  [receiptMagic, littleEndianBytes 2 contextReceiptVersion, List.replicate 2 0,
    littleEndianBytes 8 receipt.epochId, littleEndianBytes 8 receipt.firstSequence,
    littleEndianBytes 8 receipt.lastSequence, littleEndianBytes 4 receipt.recordCount,
    List.replicate 4 0, littleEndianBytes 8 receipt.startedNs, littleEndianBytes 8 receipt.endedNs,
    littleEndianBytes 8 receipt.initialChainHash, receipt.previousReceipt.toList,
    receipt.namespaceRoot.toList, receipt.rvfIdentity.toList, receipt.policyHash.toList,
    receipt.detailRoot.toList, receipt.witnessRoot.toList, signed.signerId.toList,
    signed.signature.toList]

def widths : List Nat := [4, 2, 2, 8, 8, 8, 4, 4, 8, 8, 8, 32, 32, 32, 32, 32, 32, 32, 64]

variable {signed : SignedContextEpochReceipt} {data : List UInt8}

theorem toBytes_eq : signed.toBytes = signed.fields.flatten := by
  simp [toBytes, ContextEpochReceipt.encodeUnsigned, fields]

theorem map_length_fields : signed.fields.map List.length = widths := by
  simp [fields, widths, littleEndianBytes_length, receiptMagic]
  rfl

theorem cut_toBytes : cut widths signed.toBytes = signed.fields := by
  have joined := cut_flatten signed.fields []
  rwa [append_nil, map_length_fields, ← toBytes_eq] at joined

theorem toBytes_length : signed.toBytes.length = contextReceiptEncodedSize := by
  rw [toBytes_eq, length_flatten, map_length_fields]
  rfl

theorem fromBytes_toBytes (wellFormed : signed.WellFormed) (encoded : signed.toBytes = data) :
    (fromBytes data).Ensures () (fun decoded _ => decoded = signed) fun _ _ => False := by
  have long := @toBytes_length signed
  have places := @cut_toBytes signed
  simp only [widths, fields, cut, drop_drop, Nat.reduceAdd, List.cons.injEq, and_true] at places
  rw [encoded] at long places
  obtain ⟨magic, version, reserved, epochId, firstSequence, lastSequence, recordCount, padding,
    startedNs, endedNs, initialChainHash, previousReceipt, namespaceRoot, rvfIdentity, policyHash,
    detailRoot, witnessRoot, signerId, signature⟩ := places
  obtain ⟨epochFits, lastFits, positive, short, range, bounds, endedFits, hashFits⟩ := wellFormed
  unfold contextReceiptEncodedSize at long
  unfold u64Max at epochFits lastFits endedFits hashFits
  have few : ¬signed.receipt.recordCount > maxContextEpochRecords := Nat.not_lt.mpr short
  have nonempty : signed.receipt.recordCount ≠ 0 := Nat.ne_of_gt positive
  have forward : ¬signed.receipt.lastSequence < signed.receipt.firstSequence := by omega
  have ordered : ¬signed.receipt.endedNs < signed.receipt.startedNs := Nat.not_lt.mpr bounds
  unfold maxContextEpochRecords at short
  have reserved : octetsAt 2 data 6 = some (.zero 2) :=
    octetsAt_of_take (by omega) reserved
  have padding : octetsAt 4 data 36 = some (.zero 4) :=
    octetsAt_of_take (by omega) padding
  have count : checkedAdd64 (signed.receipt.lastSequence - signed.receipt.firstSequence) 1 =
      some signed.receipt.recordCount := by
    rw [checkedAdd64_of_le (by unfold u64Max; omega)]
    exact congrArg some (by omega)
  simp only [fromBytes, ensures_bind, ensures_throwIf, ensures_orPanic, ensures_pure]
  simp only [long, magic, contextReceiptEncodedSize, ne_eq, not_true_eq_false, not_false_eq_true,
    Option.some.injEq, exists_eq_left', false_implies, true_implies, or_self, and_self, few, nonempty,
    forward, ordered, count,
    reserved, padding, littleEndianAt_of_take (by omega) version (by decide),
    littleEndianAt_of_take (by omega) epochId (by omega),
    littleEndianAt_of_take (by omega) firstSequence (by omega),
    littleEndianAt_of_take (by omega) lastSequence (by omega),
    littleEndianAt_of_take (by omega) recordCount (by omega),
    littleEndianAt_of_take (by omega) startedNs (by omega),
    littleEndianAt_of_take (by omega) endedNs (by omega),
    littleEndianAt_of_take (by omega) initialChainHash (by omega),
    octetsAt_of_take (by omega) previousReceipt, octetsAt_of_take (by omega) namespaceRoot,
    octetsAt_of_take (by omega) rvfIdentity, octetsAt_of_take (by omega) policyHash,
    octetsAt_of_take (by omega) detailRoot, octetsAt_of_take (by omega) witnessRoot,
    octetsAt_of_take (by omega) signerId, octetsAt_of_take (by omega) signature]

/-- Decoding never reads out of range; what it accepts is well formed and is encoded
as it was. -/
theorem fromBytes_spec (data : List UInt8) :
    (fromBytes data).Ensures () (fun signed _ => signed.WellFormed ∧ signed.toBytes = data)
      fun _ _ => True := by
  simp only [fromBytes, ensures_bind, ensures_throwIf, ensures_orPanic, ensures_pure]
  refine ⟨fun _ => trivial, fun long => ⟨fun _ => trivial, fun magic => ?_⟩⟩
  have long : data.length = 352 := not_not.mp long
  obtain ⟨version, atVersion⟩ := @littleEndianAt_exists data 2 4 (by omega)
  obtain ⟨reserved, atReserved⟩ := @octetsAt_exists 2 6 data (by omega)
  obtain ⟨padding, atPadding⟩ := @octetsAt_exists 4 36 data (by omega)
  refine ⟨version, atVersion, fun _ => trivial, fun current => ?_⟩
  refine ⟨reserved, atReserved, padding, atPadding, fun _ => trivial, fun zero => ?_⟩
  obtain ⟨firstSequence, atFirst⟩ := @littleEndianAt_exists data 8 16 (by omega)
  obtain ⟨lastSequence, atLast⟩ := @littleEndianAt_exists data 8 24 (by omega)
  obtain ⟨recordCount, atCount⟩ := @littleEndianAt_exists data 4 32 (by omega)
  refine ⟨firstSequence, atFirst, lastSequence, atLast, recordCount, atCount, fun _ => trivial,
    fun short => ⟨fun _ => trivial, fun range => ?_⟩⟩
  obtain ⟨startedNs, atStarted⟩ := @littleEndianAt_exists data 8 40 (by omega)
  obtain ⟨endedNs, atEnded⟩ := @littleEndianAt_exists data 8 48 (by omega)
  refine ⟨startedNs, atStarted, endedNs, atEnded, fun _ => trivial, fun ordered => ?_⟩
  obtain ⟨epochId, atEpoch⟩ := @littleEndianAt_exists data 8 8 (by omega)
  obtain ⟨initialChainHash, atHash⟩ := @littleEndianAt_exists data 8 56 (by omega)
  obtain ⟨previousReceipt, atPrevious⟩ := @octetsAt_exists 32 64 data (by omega)
  obtain ⟨namespaceRoot, atNamespace⟩ := @octetsAt_exists 32 96 data (by omega)
  obtain ⟨rvfIdentity, atIdentity⟩ := @octetsAt_exists 32 128 data (by omega)
  obtain ⟨policyHash, atPolicy⟩ := @octetsAt_exists 32 160 data (by omega)
  obtain ⟨detailRoot, atDetail⟩ := @octetsAt_exists 32 192 data (by omega)
  obtain ⟨witnessRoot, atWitness⟩ := @octetsAt_exists 32 224 data (by omega)
  obtain ⟨signerId, atSigner⟩ := @octetsAt_exists 32 256 data (by omega)
  obtain ⟨signature, atSignature⟩ := @octetsAt_exists 64 288 data (by omega)
  refine ⟨epochId, atEpoch, initialChainHash, atHash, previousReceipt, atPrevious, namespaceRoot,
    atNamespace, rvfIdentity, atIdentity, policyHash, atPolicy, detailRoot, atDetail, witnessRoot,
    atWitness, signerId, atSigner, signature, atSignature, ?_, ?_⟩
  · push Not at range
    obtain ⟨nonempty, forward, count⟩ := range
    have total := checkedAdd64_eq count
    exact ⟨Nat.le_of_lt_succ (littleEndianAt_lt atEpoch),
      Nat.le_of_lt_succ (littleEndianAt_lt atLast), Nat.pos_of_ne_zero nonempty,
      Nat.not_lt.mp short, by dsimp only; omega, Nat.not_lt.mp ordered,
      Nat.le_of_lt_succ (littleEndianAt_lt atEnded), Nat.le_of_lt_succ (littleEndianAt_lt atHash)⟩
  · obtain ⟨noReserved, noPadding⟩ := not_or.mp zero
    rw [not_not.mp noReserved] at atReserved
    rw [not_not.mp noPadding] at atPadding
    rw [not_not.mp current] at atVersion
    rw [toBytes_eq]
    refine Eq.trans (congrArg List.flatten ?_) (@flatten_cut _ widths data long)
    simp only [widths, fields, cut, drop_drop, Nat.reduceAdd, List.cons.injEq, and_true]
    exact ⟨(not_not.mp magic).symm, littleEndianBytes_of_read atVersion, octetsAt_toList atReserved,
      littleEndianBytes_of_read atEpoch, littleEndianBytes_of_read atFirst,
      littleEndianBytes_of_read atLast, littleEndianBytes_of_read atCount,
      octetsAt_toList atPadding, littleEndianBytes_of_read atStarted,
      littleEndianBytes_of_read atEnded, littleEndianBytes_of_read atHash,
      octetsAt_toList atPrevious, octetsAt_toList atNamespace, octetsAt_toList atIdentity,
      octetsAt_toList atPolicy, octetsAt_toList atDetail, octetsAt_toList atWitness,
      octetsAt_toList atSigner, octetsAt_toList atSignature⟩

theorem wellFormed_sign {sha256 : List UInt8 → Octets 32} {hasher : ChainHasher} {epochId : Nat}
    {checkpoint : WitnessCheckpoint} {first : WitnessRecord} {rest : List WitnessRecord}
    {previousReceipt : Octets 32} {commitments : EpochCommitments} {receipt : ContextEpochReceipt}
    (seals : ContextEpochReceipt.Seals sha256 hasher epochId checkpoint first rest previousReceipt
      commitments receipt) (signer : WitnessSigner) (epochFits : epochId ≤ u64Max)
    (hashFits : checkpoint.chainHash ≤ u64Max) (bounds : receipt.startedNs ≤ receipt.endedNs)
    (timesFit : receipt.endedNs ≤ u64Max) : (receipt.sign sha256 signer).WellFormed where
  epochId := seals.epochId ▸ epochFits
  lastSequence := seals.lastSequence ▸ seals.bounded
  positive := by
    rw [ContextEpochReceipt.sign, seals.recordCount]
    exact Nat.succ_pos _
  short := seals.recordCount ▸ seals.short
  range := by
    rw [ContextEpochReceipt.sign, seals.recordCount, seals.firstSequence, seals.lastSequence]
    rfl
  bounds := bounds
  endedNs := timesFit
  initialChainHash := seals.initialChainHash ▸ hashFits

end SignedContextEpochReceipt

end Rvm.Context
