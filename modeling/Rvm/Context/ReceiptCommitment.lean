import Rvm.Context.Receipt
import Rvm.Foundation.Digests

/-!
Owns that a receipt commits to its records: `verify_records` accepts the slice that was
sealed, and no other slice whose hashes do not collide with its.
-/

namespace Rvm.Context

open Foundation Foundation.Merkle Witness List Octets

/-- The fields of a record are machine integers. -/
structure SizedRecord (record : WitnessRecord) : Prop where
  sequence : record.sequence < 256 ^ 8
  timestampNs : record.timestampNs < 256 ^ 8
  actionKind : record.actionKind < 256
  proofTier : record.proofTier < 256
  flags : record.flags < 256
  actorPartitionId : record.actorPartitionId < 256 ^ 4
  targetObjectId : record.targetObjectId < 256 ^ 8
  capabilityHash : record.capabilityHash < 256 ^ 4
  prevHash : record.prevHash < 256 ^ 4
  recordHash : record.recordHash < 256 ^ 4

def recordFields (record : WitnessRecord) : List (List UInt8) :=
  [littleEndianBytes 8 record.sequence, littleEndianBytes 8 record.timestampNs,
    [UInt8.ofNat record.actionKind, UInt8.ofNat record.proofTier, UInt8.ofNat record.flags, 0],
    littleEndianBytes 4 record.actorPartitionId, littleEndianBytes 8 record.targetObjectId,
    littleEndianBytes 4 record.capabilityHash, record.payload.toList,
    littleEndianBytes 4 record.prevHash, littleEndianBytes 4 record.recordHash,
    record.aux.toList, List.replicate 4 0]

def recordWidths : List Nat := [8, 8, 4, 4, 8, 4, 8, 4, 4, 8, 4]

variable {record other : WitnessRecord}

theorem cut_recordToBytes (record : WitnessRecord) :
    cut recordWidths (recordToBytes record) = recordFields record := by
  have whole : recordToBytes record = (recordFields record).flatten := by
    simp [recordToBytes, recordFields]
  have widths : (recordFields record).map List.length = recordWidths := by
    simp [recordFields, recordWidths, littleEndianBytes_length]
  have joined := cut_flatten (recordFields record) []
  rwa [append_nil, widths, ← whole] at joined

theorem littleEndianBytes_injective {width left right : Nat} (leftFits : left < 256 ^ width)
    (rightFits : right < 256 ^ width)
    (same : littleEndianBytes width left = littleEndianBytes width right) : left = right := by
  rw [← littleEndianValue_bytes_of_lt leftFits, same, littleEndianValue_bytes_of_lt rightFits]

theorem ofNat_injective {left right : Nat} (leftFits : left < 256) (rightFits : right < 256)
    (same : UInt8.ofNat left = UInt8.ofNat right) : left = right := by
  have values := congrArg UInt8.toNat same
  rwa [UInt8.toNat_ofNat', UInt8.toNat_ofNat', Nat.mod_eq_of_lt leftFits,
    Nat.mod_eq_of_lt rightFits] at values

theorem recordToBytes_injective (left : SizedRecord record) (right : SizedRecord other)
    (same : recordToBytes record = recordToBytes other) : record = other := by
  have fields : recordFields record = recordFields other := by
    rw [← cut_recordToBytes, same, cut_recordToBytes]
  simp only [recordFields, List.cons.injEq, and_true] at fields
  obtain ⟨sequence, timestamp, ⟨kind, tier, flags⟩, actor, target, capability, payload, prev,
    hash, aux⟩ := fields
  have sequence := littleEndianBytes_injective left.sequence right.sequence sequence
  have timestamp := littleEndianBytes_injective left.timestampNs right.timestampNs timestamp
  have kind := ofNat_injective left.actionKind right.actionKind kind
  have tier := ofNat_injective left.proofTier right.proofTier tier
  have flags := ofNat_injective left.flags right.flags flags
  have actor := littleEndianBytes_injective left.actorPartitionId right.actorPartitionId actor
  have target := littleEndianBytes_injective left.targetObjectId right.targetObjectId target
  have capability :=
    littleEndianBytes_injective left.capabilityHash right.capabilityHash capability
  have prev := littleEndianBytes_injective left.prevHash right.prevHash prev
  have hash := littleEndianBytes_injective left.recordHash right.recordHash hash
  have payload := Vector.toList_inj.mp payload
  have aux := Vector.toList_inj.mp aux
  cases record
  cases other
  rw [WitnessRecord.mk.injEq]
  exact ⟨sequence, timestamp, kind, tier, flags, actor, target, capability, payload, prev, hash,
    aux⟩

section Roots

variable {sha256 : List UInt8 → Octets 32} {records others : List WitnessRecord}

def leafInput (record : WitnessRecord) : List UInt8 := leafDomain ++ recordToBytes record

def nodeInput (siblings : Octets 32 × Octets 32) : List UInt8 :=
  nodeDomain ++ siblings.1.toList ++ siblings.2.toList

def leaves (sha256 : List UInt8 → Octets 32) (records : List WitnessRecord) : List (Octets 32) :=
  records.map fun record => sha256 (leafInput record)

/-- Every message that the root of some records hashes. -/
def merkleInputs (sha256 : List UInt8 → Octets 32) (records : List WitnessRecord) :
    List (List UInt8) :=
  records.map leafInput ++
    (joined (sha256 ∘ nodeInput) records.length (leaves sha256 records)).map nodeInput

/-- SHA-256 has no collision among the messages that two roots hash. -/
def CollisionFree (sha256 : List UInt8 → Octets 32) (records others : List WitnessRecord) : Prop :=
  Set.InjOn sha256 { message | message ∈ merkleInputs sha256 records ++ merkleInputs sha256 others }

theorem merkleParents_eq (level : List (Octets 32)) :
    merkleParents sha256 level = parents (sha256 ∘ nodeInput) level := by
  induction level using pairs.induct with
  | case1 => rfl
  | case2 last => rfl
  | case3 left right rest ih =>
    rw [merkleParents, ih]
    rfl

theorem merkleLevels_eq (rounds : Nat) (level : List (Octets 32)) :
    merkleLevels sha256 rounds level = levels (sha256 ∘ nodeInput) rounds level := by
  induction rounds generalizing level with
  | zero => rfl
  | succ rounds ih =>
    rw [merkleLevels, levels, merkleParents_eq, ih]

theorem nodeInput_injective : Function.Injective nodeInput := by
  intro left right same
  simp only [nodeInput, append_assoc, append_cancel_left_eq] at same
  obtain ⟨first, second⟩ := append_inj same
    (by rw [List.Vector.toList_length, List.Vector.toList_length])
  exact Prod.ext (Subtype.ext first) (Subtype.ext second)

theorem levels_leaves (nonempty : records ≠ []) :
    levels (sha256 ∘ nodeInput) records.length (leaves sha256 records) =
      [merkleRoot sha256 records] := by
  have some : leaves sha256 records ≠ [] := fun empty =>
    nonempty (map_eq_nil_iff.mp empty)
  have count : (leaves sha256 records).length = records.length := length_map ..
  have single := @length_levels _ _ (sha256 ∘ nodeInput) records.length some (by omega)
  obtain ⟨root, isRoot⟩ := length_eq_one_iff.mp single
  have same : merkleRoot sha256 records =
      (levels (sha256 ∘ nodeInput) (leaves sha256 records).length
        (leaves sha256 records)).headD (zero 32) := by
    rw [← merkleLevels_eq]
    rfl
  rw [same, count, isRoot]
  rfl

theorem merkleRoot_injective (free : CollisionFree sha256 records others)
    (sized : ∀ record ∈ records, SizedRecord record)
    (alsoSized : ∀ record ∈ others, SizedRecord record)
    (lengths : records.length = others.length) (nonempty : records ≠ [])
    (same : merkleRoot sha256 records = merkleRoot sha256 others) : records = others := by
  have alsoNonempty : others ≠ [] := by
    rintro rfl
    exact nonempty (eq_nil_of_length_eq_zero lengths)
  have roots : levels (sha256 ∘ nodeInput) records.length (leaves sha256 records) =
      levels (sha256 ∘ nodeInput) records.length (leaves sha256 others) := by
    rw [levels_leaves nonempty, same, lengths, levels_leaves alsoNonempty]
  have sameLeaves : leaves sha256 records = leaves sha256 others := by
    apply levels_injective _ _ roots
    · rw [leaves, leaves, length_map, length_map, lengths]
    · have nodes : ∀ pair ∈ joined (sha256 ∘ nodeInput) records.length (leaves sha256 records) ++
          joined (sha256 ∘ nodeInput) records.length (leaves sha256 others),
          nodeInput pair ∈ merkleInputs sha256 records ++ merkleInputs sha256 others := by
        intro pair member
        rcases mem_append.mp member with left | right
        · exact mem_append_left _ (mem_append_right _ (mem_map_of_mem left))
        · rw [lengths] at right
          exact mem_append_right _ (mem_append_right _ (mem_map_of_mem right))
      exact fun left leftIn right rightIn collides =>
        nodeInput_injective (free (nodes left leftIn) (nodes right rightIn) collides)
  apply map_injective _ sameLeaves
  intro record member other among collides
  apply recordToBytes_injective (sized record member) (alsoSized other among)
  have messages : leafInput record = leafInput other :=
    free (mem_append_left _ (mem_append_left _ (mem_map_of_mem member)))
      (mem_append_right _ (mem_append_left _ (mem_map_of_mem among))) collides
  exact append_cancel_left messages

end Roots

namespace ContextEpochReceipt

variable {sha256 : List UInt8 → Octets 32} {hasher : ChainHasher} {epochId : Nat}
  {checkpoint : WitnessCheckpoint} {records : List WitnessRecord} {previousReceipt : Octets 32}
  {commitments : EpochCommitments} {receipt : ContextEpochReceipt}

theorem verifyRecords_sealed (sealing : sealRecords sha256 hasher epochId checkpoint records
    previousReceipt commitments = .ok receipt) :
    verifyRecords sha256 hasher receipt records = .ok () := by
  obtain ⟨first, rest, rfl, seals⟩ := seals_of_sealRecords sealing
  obtain ⟨count, chained⟩ := seals.chained
  have starts : first.sequence = checkpoint.nextSequence := by
    by_contra elsewhere
    simp [verifyChainFrom, Witness.verifyRecords, elsewhere] at chained
  unfold verifyRecords
  rw [if_neg (by rw [seals.recordCount]; exact Nat.not_lt.mpr seals.short),
    if_neg (by rw [seals.recordCount]; exact not_not.mpr rfl)]
  simp only
  rw [if_neg, if_neg, seals.initialChainHash, seals.firstSequence, starts, chained]
  · simp only
    rw [if_neg (not_not.mpr seals.witnessRoot.symm)]
  · exact not_not.mpr seals.bounds.symm
  · rw [seals.firstSequence, seals.lastSequence, seals.last]
    exact not_or.mpr ⟨not_not.mpr rfl, not_not.mpr rfl⟩

theorem verifyRecords_accepts {others : List WitnessRecord}
    (accepted : verifyRecords sha256 hasher receipt others = .ok ()) :
    others.length = receipt.recordCount ∧ merkleRoot sha256 others = receipt.witnessRoot := by
  unfold verifyRecords at accepted
  split at accepted
  · cases accepted
  · split at accepted
    · cases accepted
    · rename_i counted
      refine ⟨not_not.mp counted, ?_⟩
      split at accepted
      · cases accepted
      · split at accepted
        · cases accepted
        · split at accepted
          · cases accepted
          · split at accepted
            · cases accepted
            · split at accepted
              · cases accepted
              · rename_i root
                exact not_not.mp root

/-- A receipt is accepted with the records that it sealed, and with no others. -/
theorem commitsToRecords (sealing : sealRecords sha256 hasher epochId checkpoint records
    previousReceipt commitments = .ok receipt) (sized : ∀ record ∈ records, SizedRecord record) :
    verifyRecords sha256 hasher receipt records = .ok () ∧
      ∀ others : List WitnessRecord, (∀ record ∈ others, SizedRecord record) →
        CollisionFree sha256 records others → others ≠ records →
          ∃ e, verifyRecords sha256 hasher receipt others = .error e := by
  refine ⟨verifyRecords_sealed sealing, fun others alsoSized free different => ?_⟩
  cases verdict : verifyRecords sha256 hasher receipt others with
  | error e => exact ⟨e, rfl⟩
  | ok value =>
    obtain ⟨counted, root⟩ := verifyRecords_accepts verdict
    obtain ⟨first, rest, rfl, seals⟩ := seals_of_sealRecords sealing
    rw [seals.recordCount] at counted
    rw [seals.witnessRoot] at root
    exact absurd (merkleRoot_injective free sized alsoSized counted.symm nofun root.symm).symm
      different

/-- A stand-in without a collision among the messages below. -/
def sampleSha256 (message : List UInt8) : Octets 32 :=
  littleEndianOctets 32 (littleEndianValue (message ++ [1]) % (2 ^ 256 - 189))

def sampleHasher : ChainHasher := ⟨fun _ _ => 0, fun _ => 0⟩

def sampleRecord (sequence : Nat) : WitnessRecord := { WitnessRecord.zeroed with sequence }

theorem sized_sampleRecords {sequences : List Nat} (below : ∀ n ∈ sequences, n < 256 ^ 8) :
    ∀ record ∈ sequences.map sampleRecord, SizedRecord record := by
  rw [List.forall_mem_map]
  intro n member
  constructor
  case sequence => exact below n member
  all_goals simp [sampleRecord, WitnessRecord.zeroed]

/-- Three records, and the same with the last one doubled, which have one Merkle root. -/
theorem commitsToRecords_sample :
    ∃ receipt, sealRecords sampleSha256 sampleHasher 0 ⟨0, 0⟩ ([0, 1, 2].map sampleRecord)
        (zero 32) ⟨zero 32, zero 32, zero 32, zero 32⟩ = .ok receipt ∧
      verifyRecords sampleSha256 sampleHasher receipt ([0, 1, 2].map sampleRecord) = .ok () ∧
      merkleRoot sampleSha256 ([0, 1, 2, 2].map sampleRecord) = receipt.witnessRoot ∧
      ∃ e, verifyRecords sampleSha256 sampleHasher receipt ([0, 1, 2, 2].map sampleRecord) =
        .error e := by
  have sealing : ∃ receipt, sealRecords sampleSha256 sampleHasher 0 ⟨0, 0⟩
      ([0, 1, 2].map sampleRecord) (zero 32) ⟨zero 32, zero 32, zero 32, zero 32⟩ = .ok receipt ∧
      merkleRoot sampleSha256 ([0, 1, 2, 2].map sampleRecord) = receipt.witnessRoot := ⟨_, rfl, rfl⟩
  obtain ⟨receipt, sealing, root⟩ := sealing
  have commits := commitsToRecords sealing (sized_sampleRecords (by decide))
  have free : CollisionFree sampleSha256 ([0, 1, 2].map sampleRecord)
      ([0, 1, 2, 2].map sampleRecord) := by
    have apart : ∀ left ∈ merkleInputs sampleSha256 ([0, 1, 2].map sampleRecord) ++
          merkleInputs sampleSha256 ([0, 1, 2, 2].map sampleRecord),
        ∀ right ∈ merkleInputs sampleSha256 ([0, 1, 2].map sampleRecord) ++
          merkleInputs sampleSha256 ([0, 1, 2, 2].map sampleRecord),
        sampleSha256 left = sampleSha256 right → left = right := by decide +kernel
    exact fun left leftIn right rightIn => apart left leftIn right rightIn
  exact ⟨receipt, sealing, commits.1, root,
    commits.2 _ (sized_sampleRecords (by decide)) free (by decide)⟩

end ContextEpochReceipt

end Rvm.Context
