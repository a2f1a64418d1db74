import Rvm.Context.Mediation
import Rvm.Service.Error

/-!
Owns the durable receipt store of `rvm-context-service/src/receipt_store.rs` (two tables, the
resume cursor, and the checks that an appended receipt and its cursor pass; whether the
database commits a transaction is an argument) and the receipt drainer of
`receipt_drainer.rs`, with the runs of a runtime behind it.
-/

namespace Rvm.Service

open Context Foundation Foundation.Call Witness SignedContextEpochReceipt

def cursorBytes : Nat := 56

/-- Authenticated durable coordinates needed to resume a context runtime. -/
structure ReceiptCursor where
  nextSequence : Nat
  chainHash : Nat
  nextEpochId : Nat
  previousReceiptId : Octets 32
deriving DecidableEq

namespace ReceiptCursor

def fromChainState (state : ReceiptChainState) : ReceiptCursor :=
  ⟨state.nextCheckpoint.nextSequence, state.nextCheckpoint.chainHash, state.nextEpochId,
    state.previousReceiptId⟩

def intoChainState (cursor : ReceiptCursor) : ReceiptChainState :=
  ⟨⟨cursor.nextSequence, cursor.chainHash⟩, cursor.nextEpochId, cursor.previousReceiptId⟩

def encode (cursor : ReceiptCursor) : List UInt8 :=
  littleEndianBytes 8 cursor.nextSequence ++ littleEndianBytes 8 cursor.chainHash ++
    littleEndianBytes 8 cursor.nextEpochId ++ cursor.previousReceiptId.toList

def decode (bytes : List UInt8) : Call ServiceError Unit ReceiptCursor := do
  throwIf (bytes.length ≠ cursorBytes) (.corruptState "invalid receipt cursor")
  let previousReceiptId ← orPanic (octetsAt 32 bytes 24)
  let nextSequence ← orPanic (littleEndianAt 8 bytes 0)
  let chainHash ← orPanic (littleEndianAt 8 bytes 8)
  let nextEpochId ← orPanic (littleEndianAt 8 bytes 16)
  return ⟨nextSequence, chainHash, nextEpochId, previousReceiptId⟩

/-- The coordinates are `u64` values. -/
structure Fits (cursor : ReceiptCursor) : Prop where
  nextSequence : cursor.nextSequence ≤ u64Max
  chainHash : cursor.chainHash ≤ u64Max
  nextEpochId : cursor.nextEpochId ≤ u64Max

theorem decode_encode {cursor : ReceiptCursor} (fits : cursor.Fits) :
    (decode cursor.encode).Ensures () (fun decoded _ => decoded = cursor) fun _ _ => False := by
  have places := cut_flatten [littleEndianBytes 8 cursor.nextSequence,
    littleEndianBytes 8 cursor.chainHash, littleEndianBytes 8 cursor.nextEpochId,
    cursor.previousReceiptId.toList] []
  have joined : [littleEndianBytes 8 cursor.nextSequence, littleEndianBytes 8 cursor.chainHash,
      littleEndianBytes 8 cursor.nextEpochId, cursor.previousReceiptId.toList].flatten ++ [] =
        cursor.encode := by simp [encode]
  have long : cursor.encode.length = 56 := by simp [encode, littleEndianBytes_length]
  rw [joined] at places
  generalize cursor.encode = bytes at long places ⊢
  simp only [List.map_cons, List.map_nil, littleEndianBytes_length, List.Vector.toList_length, cut,
    List.drop_drop, Nat.reduceAdd, List.cons.injEq, and_true] at places
  obtain ⟨nextSequence, chainHash, nextEpochId, previousReceiptId⟩ := places
  obtain ⟨sequenceFits, hashFits, epochFits⟩ := fits
  unfold u64Max at sequenceFits hashFits epochFits
  simp only [decode, ensures_bind, ensures_throwIf, ensures_orPanic, ensures_pure]
  simp only [long, cursorBytes, ne_eq, not_true_eq_false, not_false_eq_true, false_implies,
    true_implies, true_and, Option.some.injEq, exists_eq_left',
    octetsAt_of_take (by omega) previousReceiptId,
    littleEndianAt_of_take (by omega) chainHash (Nat.lt_succ_of_le hashFits),
    littleEndianAt_of_take (by omega) nextEpochId (Nat.lt_succ_of_le epochFits)]
  exact ⟨_, littleEndianAt_of_take (by omega) nextSequence (Nat.lt_succ_of_le sequenceFits), rfl⟩

theorem decode_total (bytes : List UInt8) :
    (decode bytes).Ensures () (fun _ _ => True) fun _ _ => True := by
  simp only [decode, ensures_bind, ensures_throwIf, ensures_orPanic, ensures_pure]
  refine ⟨fun _ => trivial, fun long => ?_⟩
  have long : bytes.length = 56 := not_not.mp long
  obtain ⟨previousReceiptId, atPrevious⟩ := @octetsAt_exists 32 24 bytes (by omega)
  obtain ⟨nextSequence, atSequence⟩ := @littleEndianAt_exists bytes 8 0 (by omega)
  obtain ⟨chainHash, atHash⟩ := @littleEndianAt_exists bytes 8 8 (by omega)
  obtain ⟨nextEpochId, atEpoch⟩ := @littleEndianAt_exists bytes 8 16 (by omega)
  exact ⟨_, atPrevious, _, atSequence, _, atHash, _, atEpoch, trivial⟩

end ReceiptCursor

/-- The two tables: receipts by epoch, and the cursor under its one key. -/
structure DurableReceiptStore where
  receipts : Nat → Option (List UInt8)
  cursorValue : Option (List UInt8)

namespace DurableReceiptStore

abbrev StoreCall (α : Type) := Call ServiceError DurableReceiptStore α

def opened : DurableReceiptStore := ⟨fun _ => none, none⟩

def receiptError (error : ContextReceiptError) : ServiceError :=
  .database (.receiptVerification error)

section Appending

variable (sha256 : List UInt8 → Octets 32) (hasher : ChainHasher)

def chainHashOver (initialChainHash first last : Nat) : Nat :=
  (List.range' first (last + 1 - first)).foldl hasher.computeChainHash initialChainHash

def verifyContinues (verified : VerifiedContextEpochReceipt sha256) (signer : WitnessSigner)
    (cursorValue : List UInt8) : StoreCall Unit := do
  let receipt := verified.signed.receipt
  let current ← reading (ReceiptCursor.decode cursorValue)
  throwIf (current.nextEpochId ≠ receipt.epochId ∨
    current.previousReceiptId ≠ receipt.previousReceipt) (.corruptState "receipt cursor fork")
  throwIf (receipt.epochId = 0) (.corruptState "genesis receipt fork")
  let store ← get
  let previousBytes ← orThrow (store.receipts (receipt.epochId - 1))
    (.corruptState "previous receipt missing")
  let previous ← translate receiptError (reading (fromBytes previousBytes))
  let previousVerified ← translate receiptError (orRefusal (previous.verify sha256 signer))
  translate receiptError (orRefusal (verified.verifySuccessor hasher previousVerified))

def verifyFollows (verified : VerifiedContextEpochReceipt sha256) (signer : WitnessSigner) :
    StoreCall Unit := do
  let store ← get
  match store.cursorValue with
  | none => translate receiptError (orRefusal verified.verifyGenesis)
  | some bytes => verifyContinues sha256 hasher verified signer bytes

def appendVerified (commits : Bool) (receipt : SignedContextEpochReceipt)
    (following : ReceiptCursor) (signer : WitnessSigner) : StoreCall Unit := do
  let verified ← translate receiptError (orRefusal (receipt.verify sha256 signer))
  let epoch := receipt.receipt.epochId
  let followingEpoch ← orThrow (checkedAdd64 epoch 1) (.corruptState "receipt epoch overflow")
  -- the sequence is not added to when an earlier coordinate differs
  throwIf (following.nextEpochId ≠ followingEpoch ∨
    following.previousReceiptId ≠ receipt.receiptId sha256) (.corruptState "receipt cursor mismatch")
  let followingSequence ← orThrow (checkedAdd64 receipt.receipt.lastSequence 1)
    (.corruptState "receipt sequence overflow")
  throwIf (following.nextSequence ≠ followingSequence) (.corruptState "receipt cursor mismatch")
  throwIf (following.chainHash ≠ chainHashOver hasher receipt.receipt.initialChainHash
    receipt.receipt.firstSequence receipt.receipt.lastSequence)
    (.corruptState "receipt chain hash mismatch")
  atomically do
    let store ← get
    throwIf ((store.receipts epoch).isSome = true) (.corruptState "receipt epoch replay")
    verifyFollows sha256 hasher verified signer
    modify fun store =>
      { receipts := Function.update store.receipts epoch (some receipt.toBytes)
        cursorValue := some following.encode }
    throwIf (commits = false) (.database .storage)

end Appending

def cursor : StoreCall (Option ReceiptCursor) := do
  let store ← get
  match store.cursorValue with
  | none => return none
  | some bytes => return some (← reading (ReceiptCursor.decode bytes))

def receipt (epoch : Nat) : StoreCall (Option SignedContextEpochReceipt) := do
  let store ← get
  match store.receipts epoch with
  | none => return none
  | some bytes =>
    return some (← translate receiptError (reading (fromBytes bytes)))

end DurableReceiptStore

/-- Coordinates signed epoch persistence. -/
structure ReceiptDrainer where
  store : DurableReceiptStore
  maxUnsealed : Nat

/-- How a call of the drainer ends that does not return. -/
inductive DrainerStop where
  | failed (error : ServiceError)
  | panicked
deriving DecidableEq, Repr

def DrainerStop.ofRuntime : Stop → DrainerStop
  | .refused error => .failed (.runtime (.refused error))
  | .panicked => .panicked

structure Drained (ρ κ : Type) where
  runtime : ContextRuntime ρ κ
  drainer : ReceiptDrainer

/-- The arguments of one seal; whether the store can commit is one of them. -/
structure SealCall where
  request : ContextRequest
  commitments : EpochCommitments
  signer : WitnessSigner
  commits : Bool

namespace ReceiptDrainer

variable {ρ κ : Type}

def new (store : DurableReceiptStore) (maxUnsealed : Nat) : Except ServiceError ReceiptDrainer :=
  if maxUnsealed = 0 then .error (.corruptState "receipt backpressure threshold is zero")
  else .ok ⟨store, maxUnsealed⟩

/-- Number of witness records not yet covered by a persisted receipt. -/
def pending (runtime : ContextRuntime ρ κ) : Nat :=
  runtime.witness.totalEmitted - runtime.receiptChain.nextCheckpoint.nextSequence

def admits (drainer : ReceiptDrainer) (capacity : Nat) (runtime : ContextRuntime ρ κ) :
    Except ServiceError Unit :=
  if drainer.maxUnsealed > capacity - 2 then
    .error (.corruptState "receipt threshold leaves insufficient ring headroom")
  else if pending runtime ≥ drainer.maxUnsealed then .error (.runtime .backpressure)
  else .ok ()

section Sealing

variable (parameters : RuntimeParameters ρ κ)

def append (store : DurableReceiptStore) (call : SealCall) (receipt : SignedContextEpochReceipt)
    (following : ReceiptChainState) :
    Option (Except ContextError Unit × DurableReceiptStore) :=
  ((DurableReceiptStore.appendVerified parameters.witness.sha256 parameters.witness.hasher
    call.commits receipt (.fromChainState following) call.signer).runFrom store).map
      fun (outcome, next) => (outcome.mapError fun _ => .backendUnavailable, next)

def sealArguments (store : DurableReceiptStore) (call : SealCall) :
    ContextRuntime.SealArguments where
  scratch := List.replicate parameters.witness.capacity .zeroed
  commitments := call.commitments
  signer := call.signer
  persist receipt following := (append parameters store call receipt following).map Prod.fst

/-- `seal`. The runtime asks for the outcome of the append; its effect on the store is
the append's own. -/
def sealEpoch (call : SealCall) : Call DrainerStop (Drained ρ κ) ReceiptCursor := do
  let before ← get
  let (receipt, _) ← onPart Drained.runtime (fun here runtime => { here with runtime := runtime })
    (translate .ofRuntime (ContextRuntime.sealEpochTransactional parameters call.request
      (sealArguments parameters before.drainer.store call)))
  let here ← get
  let (_, store) ← orPanic (append parameters here.drainer.store call receipt
    here.runtime.receiptChain)
  set { here with drainer := { here.drainer with store := store } }
  return ReceiptCursor.fromChainState here.runtime.receiptChain

end Sealing

inductive DrainEvent where
  | requested (access : ContextRuntime.Access) (outcome : Except Stop ContextRuntime.AccessReply)
  | sealed (call : SealCall) (outcome : Except DrainerStop ReceiptCursor)
  | administered

/-- An ordinary request after it was admitted, a seal, or a change of the authority by
its owner. -/
inductive Step (parameters : RuntimeParameters ρ κ) (here : Drained ρ κ) :
    DrainEvent → Drained ρ κ → Prop
  | requested {fuel : Nat} {access : ContextRuntime.Access}
      {outcome : Except Stop ContextRuntime.AccessReply}
      {next : ContextRuntime ρ κ} :
      access.operation ≠ .sealReceipt →
      here.drainer.admits parameters.witness.capacity here.runtime = .ok () →
      (ContextRuntime.serve parameters fuel access).runFrom here.runtime = some (outcome, next) →
      Step parameters here (.requested access outcome) { here with runtime := next }
  | sealed {call : SealCall} {outcome : Except DrainerStop ReceiptCursor} {next : Drained ρ κ} :
      (sealEpoch parameters call).runFrom here = some (outcome, next) →
      Step parameters here (.sealed call outcome) next
  | administered (authority : ContextAuthority) :
      Step parameters here .administered
        { here with runtime := { here.runtime with authority := authority } }

end ReceiptDrainer

end Rvm.Service
