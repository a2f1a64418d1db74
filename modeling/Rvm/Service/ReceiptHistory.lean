import Rvm.Service.ReceiptStore

/-!
Owns what a receipt store holds after any sequence of appends: one chain of receipts
from genesis, and a cursor that stands behind its last receipt.
-/

namespace Rvm.Service

open DurableReceiptStore

open Context Foundation Foundation.Call Witness SignedContextEpochReceipt List Option ReceiptCursor

/-! ### The chain hash of a log -/

section Hashes

variable (hasher : ChainHasher)

/-- Every chain hash is a `u64`. -/
abbrev WordHashes : Prop :=
  ∀ chainHash sequence, hasher.computeChainHash chainHash sequence ≤ u64Max

def chainHashAt (count : Nat) : Nat := (List.range count).foldl hasher.computeChainHash 0

variable {hasher}

theorem chainHashAt_succ (count : Nat) :
    chainHashAt hasher (count + 1) = hasher.computeChainHash (chainHashAt hasher count) count := by
  rw [chainHashAt, range_succ, foldl_append]
  rfl

theorem foldl_chainHashAt (first count : Nat) :
    (List.range' first count).foldl hasher.computeChainHash (chainHashAt hasher first) =
      chainHashAt hasher (first + count) := by
  induction count generalizing first with
  | zero => rfl
  | succ count ih =>
    rw [range'_succ, foldl_cons, ← chainHashAt_succ, ih]
    congr 1
    omega

theorem chainHashOver_eq {first last : Nat} (ordered : first ≤ last + 1) :
    chainHashOver hasher (chainHashAt hasher first) first last =
      chainHashAt hasher (last + 1) := by
  rw [chainHashOver, foldl_chainHashAt, Nat.add_sub_cancel' ordered]

theorem advanceChain_chainHashAt {first count : Nat} (fits : first + count ≤ u64Max + 1) :
    advanceChain hasher (chainHashAt hasher first) first count =
      some (chainHashAt hasher (first + count)) := by
  induction count generalizing first with
  | zero => rfl
  | succ count ih =>
    rw [advanceChain, if_neg (by omega), ← chainHashAt_succ, ih (by omega)]
    congr 2
    omega

end Hashes

namespace DurableReceiptStore

variable {sha256 : List UInt8 → Octets 32} {hasher : ChainHasher} {store next : DurableReceiptStore}

/-! ### One append -/

/-- What the checks against the stored cursor establish. -/
structure Continues (sha256 : List UInt8 → Octets 32) (hasher : ChainHasher)
    (store : DurableReceiptStore) (verified : VerifiedContextEpochReceipt sha256)
    (signer : WitnessSigner) (cursorValue : List UInt8) : Prop where
  decoded : ∃ current, (decode cursorValue).runFrom () = some (.ok current, ()) ∧
    current.nextEpochId = verified.signed.receipt.epochId ∧
    current.previousReceiptId = verified.signed.receipt.previousReceipt
  later : verified.signed.receipt.epochId ≠ 0
  previous : ∃ bytes signed previous,
    store.receipts (verified.signed.receipt.epochId - 1) = some bytes ∧
    (fromBytes bytes).runFrom () = some (.ok signed, ()) ∧
    signed.verify sha256 signer = .ok previous ∧
    verified.verifySuccessor hasher previous = .ok ()

theorem verifyContinues_spec (verified : VerifiedContextEpochReceipt sha256)
    (signer : WitnessSigner) (cursorValue : List UInt8) :
    (verifyContinues sha256 hasher verified signer cursorValue).Ensures store
      (fun _ next => next = store ∧ Continues sha256 hasher store verified signer cursorValue)
      fun _ next => next = store := by
  simp only [verifyContinues, ensures_bind, ensures_reading]
  apply (decode_total cursorValue).traced.mono
  · rintro current _ ⟨_, decoded⟩
    simp only [ensures_throwIf, ensures_get, ensures_orThrow, ensures_translate, ensures_reading,
      ensures_orRefusal]
    refine ⟨fun _ => trivial, fun same => ⟨fun _ => trivial, fun later => ⟨?_, fun _ => trivial⟩⟩⟩
    push Not at same
    intro bytes stored
    apply (fromBytes_spec bytes).traced.mono
    · rintro signed _ ⟨_, read⟩
      refine ⟨fun previous known => ⟨fun _ continued => ?_, fun _ _ => trivial⟩, fun _ _ => trivial⟩
      exact ⟨trivial, ⟨current, decoded, same⟩, later, bytes, signed, previous, stored, read, known,
        continued⟩
    · exact fun _ _ _ => trivial
  · exact fun _ _ _ => trivial

structure Follows (sha256 : List UInt8 → Octets 32) (hasher : ChainHasher)
    (store : DurableReceiptStore) (verified : VerifiedContextEpochReceipt sha256)
    (signer : WitnessSigner) : Prop where
  genesis : store.cursorValue = none → verified.verifyGenesis = .ok ()
  continues : ∀ bytes, store.cursorValue = some bytes →
    Continues sha256 hasher store verified signer bytes

theorem verifyFollows_spec (verified : VerifiedContextEpochReceipt sha256)
    (signer : WitnessSigner) :
    (verifyFollows sha256 hasher verified signer).Ensures store
      (fun _ next => next = store ∧ Follows sha256 hasher store verified signer)
      fun _ next => next = store := by
  rw [verifyFollows, ensures_bind, ensures_get]
  split
  · rename_i empty
    rw [ensures_translate, ensures_orRefusal]
    refine ⟨fun _ genesis => ⟨rfl, fun _ => genesis, fun bytes stored => ?_⟩, fun _ _ => rfl⟩
    rw [empty] at stored
    cases stored
  · rename_i bytes stored
    apply (verifyContinues_spec verified signer bytes).weaken
    intro _ _ ⟨same, continues⟩
    refine ⟨same, fun empty => ?_, fun other held => ?_⟩
    · rw [stored] at empty
      cases empty
    · rw [stored] at held
      rw [← some.inj held]
      exact continues

/-- An accepted append: the cursor has the coordinates that follow the receipt, and
the receipt follows what is stored. -/
structure Appended (sha256 : List UInt8 → Octets 32) (hasher : ChainHasher)
    (store : DurableReceiptStore) (verified : VerifiedContextEpochReceipt sha256)
    (following : ReceiptCursor) (signer : WitnessSigner) (next : DurableReceiptStore) : Prop where
  epochRoom : verified.signed.receipt.epochId + 1 ≤ u64Max
  sequenceRoom : verified.signed.receipt.lastSequence + 1 ≤ u64Max
  coordinates : following =
    ⟨verified.signed.receipt.lastSequence + 1,
      chainHashOver hasher verified.signed.receipt.initialChainHash
        verified.signed.receipt.firstSequence verified.signed.receipt.lastSequence,
      verified.signed.receipt.epochId + 1, verified.signed.receiptId sha256⟩
  fresh : store.receipts verified.signed.receipt.epochId = none
  follows : Follows sha256 hasher store verified signer
  receipts : next.receipts = Function.update store.receipts verified.signed.receipt.epochId
    (some verified.signed.toBytes)
  cursorValue : next.cursorValue = some following.encode

theorem appendVerified_spec (commits : Bool) (receipt : SignedContextEpochReceipt)
    (following : ReceiptCursor) (signer : WitnessSigner) :
    (appendVerified sha256 hasher commits receipt following signer).Ensures store
      (fun _ next => ∃ verified, verified.signed = receipt ∧
        Appended sha256 hasher store verified following signer next)
      fun _ next => next = store := by
  simp only [appendVerified, ensures_bind, ensures_translate, ensures_orRefusal, ensures_orThrow,
    ensures_throwIf, ensures_atomically, ensures_get]
  refine ⟨fun verified known => ⟨fun followingEpoch epochAdded => ⟨fun _ => trivial, fun linked => ?_⟩,
    fun _ => trivial⟩, fun _ _ => trivial⟩
  obtain rfl : verified.signed = receipt := ContextRuntime.verified_signed known
  refine ⟨fun followingSequence sequenceAdded => ⟨fun _ => trivial, fun adjacent =>
    ⟨fun _ => trivial, fun hashed => ⟨fun _ => trivial, fun fresh => ?_⟩⟩⟩, fun _ => trivial⟩
  apply (verifyFollows_spec verified signer).mono
  · rintro _ _ ⟨same, follows⟩
    subst same
    refine ⟨fun _ => trivial, fun _ => ⟨verified, rfl, ?_⟩⟩
    push Not at linked adjacent hashed
    have epochTotal := checkedAdd64_eq epochAdded
    have sequenceTotal := checkedAdd64_eq sequenceAdded
    refine ⟨le_of_checkedAdd64 epochAdded, le_of_checkedAdd64 sequenceAdded, ?_,
      not_isSome_iff_eq_none.mp fresh, follows, rfl, rfl⟩
    obtain ⟨nextSequence, chainHash, nextEpochId, previousReceiptId⟩ := following
    rw [ReceiptCursor.mk.injEq]
    exact ⟨adjacent.trans sequenceTotal, hashed, linked.1.trans epochTotal, linked.2⟩
  · exact fun _ _ _ => trivial

/-! ### What is stored -/

def cursorAfter (sha256 : List UInt8 → Octets 32) (hasher : ChainHasher) (count : Nat)
    (last : SignedContextEpochReceipt) : ReceiptCursor :=
  ⟨last.receipt.lastSequence + 1, chainHashAt hasher (last.receipt.lastSequence + 1), count,
    last.receiptId sha256⟩

structure StoredChain (sha256 : List UInt8 → Octets 32) (hasher : ChainHasher)
    (store : DurableReceiptStore) (receipts : List (VerifiedContextEpochReceipt sha256)) :
    Prop where
  stored : ∀ epoch, store.receipts epoch =
    receipts[epoch]?.map fun verified => verified.signed.toBytes
  numbered : ∀ (epoch : Nat) (verified : VerifiedContextEpochReceipt sha256),
    receipts[epoch]? = some verified → verified.signed.receipt.epochId = epoch
  genesis : ∀ first ∈ receipts.head?, first.verifyGenesis = .ok ()
  successors : receipts.IsChain fun previous verified =>
    verified.verifySuccessor hasher previous = .ok ()
  cursorValue : store.cursorValue = receipts.getLast?.map fun last =>
    (cursorAfter sha256 hasher receipts.length last.signed).encode
  wellFormed : ∀ verified ∈ receipts, verified.signed.WellFormed
  hashed : ∀ last ∈ receipts.getLast?,
    last.signed.receipt.initialChainHash = chainHashAt hasher last.signed.receipt.firstSequence
  room : ∀ last ∈ receipts.getLast?,
    last.signed.receipt.lastSequence + 1 ≤ u64Max ∧ receipts.length ≤ u64Max

theorem storedChain_opened : StoredChain sha256 hasher opened [] where
  stored _ := rfl
  numbered _ _ held := by cases held
  genesis _ member := by cases member
  successors := .nil
  cursorValue := rfl
  wellFormed _ member := by cases member
  hashed _ member := by cases member
  room _ member := by cases member

theorem verifyGenesis_eq {verified : VerifiedContextEpochReceipt sha256}
    (genesis : verified.verifyGenesis = .ok ()) :
    verified.signed.receipt.epochId = 0 ∧ verified.signed.receipt.firstSequence = 0 ∧
      verified.signed.receipt.initialChainHash = 0 := by
  unfold VerifiedContextEpochReceipt.verifyGenesis at genesis
  dsimp only at genesis
  split at genesis
  · cases genesis
  · rename_i zero
    push Not at zero
    exact ⟨zero.1, zero.2.1, zero.2.2.1⟩

theorem verifySuccessor_eq {verified previous : VerifiedContextEpochReceipt sha256}
    (continued : verified.verifySuccessor hasher previous = .ok ()) :
    verified.signed.receipt.epochId = previous.signed.receipt.epochId + 1 ∧
      verified.signed.receipt.firstSequence = previous.signed.receipt.lastSequence + 1 ∧
      advanceChain hasher previous.signed.receipt.initialChainHash
        previous.signed.receipt.firstSequence previous.signed.receipt.recordCount =
          some verified.signed.receipt.initialChainHash := by
  unfold VerifiedContextEpochReceipt.verifySuccessor at continued
  dsimp only at continued
  split at continued
  · cases continued
  · split at continued
    · cases continued
    · rename_i expected advanced
      split at continued
      · cases continued
      · rename_i same
        push Not at same
        exact ⟨same.2.1, same.2.2.1, same.2.2.2.symm ▸ advanced⟩

theorem verified_ext {first second : VerifiedContextEpochReceipt sha256}
    (same : first.signed = second.signed) : first = second := by
  obtain ⟨signed, _⟩ := first
  obtain ⟨other, _⟩ := second
  obtain rfl : signed = other := same
  rfl

namespace StoredChain

variable {receipts : List (VerifiedContextEpochReceipt sha256)}
  {verified : VerifiedContextEpochReceipt sha256} {signer : WitnessSigner}
  {following : ReceiptCursor}

theorem chainHash_last (chain : StoredChain sha256 hasher store receipts)
    {last : VerifiedContextEpochReceipt sha256} (member : last ∈ receipts.getLast?) :
    advanceChain hasher last.signed.receipt.initialChainHash last.signed.receipt.firstSequence
      last.signed.receipt.recordCount =
        some (chainHashAt hasher (last.signed.receipt.lastSequence + 1)) := by
  have wellFormed := chain.wellFormed last (mem_of_getLast? member)
  have fits := wellFormed.lastSequence
  have range := wellFormed.range
  rw [chain.hashed last member, advanceChain_chainHashAt (by omega), range]

theorem decoded (chain : StoredChain sha256 hasher store receipts) (bounded : WordHashes hasher)
    {last : VerifiedContextEpochReceipt sha256} (member : last ∈ receipts.getLast?) :
    (decode (cursorAfter sha256 hasher receipts.length last.signed).encode).Ensures ()
      (fun decoded _ => decoded = cursorAfter sha256 hasher receipts.length last.signed)
      fun _ _ => False := by
  obtain ⟨sequenceRoom, epochRoom⟩ := chain.room last member
  apply decode_encode
  refine ⟨sequenceRoom, ?_, epochRoom⟩
  rw [cursorAfter, chainHashAt_succ]
  exact bounded _ _

theorem followed (chain : StoredChain sha256 hasher store receipts) (bounded : WordHashes hasher)
    (follows : Follows sha256 hasher store verified signer) :
    (receipts = [] → verified.verifyGenesis = .ok ()) ∧
      ∀ last ∈ receipts.getLast?, verified.verifySuccessor hasher last = .ok () := by
  constructor
  · intro empty
    apply follows.genesis
    rw [chain.cursorValue, empty]
    rfl
  · intro last member
    have cursorValue := chain.cursorValue
    rw [mem_def.mp member, map_some] at cursorValue
    obtain ⟨⟨current, decoded, epoch, _⟩, later, bytes, signed, previous, stored, read, known,
      continued⟩ := follows.continues _ cursorValue
    have exact := chain.decoded bounded member
    rw [Ensures, decoded] at exact
    have count : receipts.length = verified.signed.receipt.epochId := by
      rw [← epoch, exact]
      rfl
    rw [chain.stored, ← count, ← List.getLast?_eq_getElem?, mem_def.mp member,
      map_some, Option.some.injEq] at stored
    have again := fromBytes_toBytes
      (chain.wellFormed last (mem_of_getLast? member)) stored
    rw [Ensures, read] at again
    obtain rfl : previous = last :=
      verified_ext ((ContextRuntime.verified_signed known).trans again)
    exact continued

theorem epochId_eq (chain : StoredChain sha256 hasher store receipts)
    (genesis : receipts = [] → verified.verifyGenesis = .ok ())
    (continues : ∀ last ∈ receipts.getLast?, verified.verifySuccessor hasher last = .ok ()) :
    verified.signed.receipt.epochId = receipts.length := by
  rcases found : receipts.getLast? with _ | last
  · have empty := List.getLast?_eq_none_iff.mp found
    rw [(verifyGenesis_eq (genesis empty)).1, empty]
    rfl
  · rw [(verifySuccessor_eq (continues last found)).1]
    rw [List.getLast?_eq_getElem?] at found
    have inside := (List.getElem?_eq_some_iff.mp found).1
    rw [chain.numbered _ last found]
    omega

theorem initialChainHash_eq (chain : StoredChain sha256 hasher store receipts)
    (genesis : receipts = [] → verified.verifyGenesis = .ok ())
    (continues : ∀ last ∈ receipts.getLast?, verified.verifySuccessor hasher last = .ok ()) :
    verified.signed.receipt.initialChainHash =
      chainHashAt hasher verified.signed.receipt.firstSequence := by
  rcases found : receipts.getLast? with _ | last
  · obtain ⟨_, first, zero⟩ := verifyGenesis_eq (genesis (List.getLast?_eq_none_iff.mp found))
    rw [first, zero]
    rfl
  · obtain ⟨_, first, advanced⟩ := verifySuccessor_eq (continues last found)
    rw [chain.chainHash_last found] at advanced
    rw [first, some.inj advanced]

theorem appended (chain : StoredChain sha256 hasher store receipts) (bounded : WordHashes hasher)
    (wellFormed : verified.signed.WellFormed)
    (append : Appended sha256 hasher store verified following signer next) :
    StoredChain sha256 hasher next (receipts ++ [verified]) := by
  obtain ⟨genesis, continues⟩ := chain.followed bounded append.follows
  have epoch := chain.epochId_eq genesis continues
  have hashed := chain.initialChainHash_eq genesis continues
  have ordered : verified.signed.receipt.firstSequence ≤ verified.signed.receipt.lastSequence + 1 := by
    have range := wellFormed.range
    omega
  constructor
  · intro other
    rw [append.receipts, epoch]
    by_cases last : other = receipts.length
    · rw [last, Function.update_self, List.getElem?_concat_length]
      rfl
    · rw [Function.update_of_ne last, chain.stored]
      by_cases below : other < receipts.length
      · rw [List.getElem?_append_left below]
      · rw [List.getElem?_eq_none (Nat.not_lt.mp below), List.getElem?_eq_none]
        rw [length_append, length_singleton]
        omega
  · intro other held found
    by_cases last : other = receipts.length
    · rw [last, List.getElem?_concat_length] at found
      rw [← some.inj found, epoch, last]
    · have inside := (List.getElem?_eq_some_iff.mp found).1
      rw [length_append, length_singleton] at inside
      rw [List.getElem?_append_left (by omega)] at found
      exact chain.numbered other held found
  · cases receipts with
    | nil =>
      intro only member
      obtain rfl := some.inj member
      exact genesis rfl
    | cons head rest => exact chain.genesis
  · apply chain.successors.append (.singleton verified)
    intro previous last following member
    obtain rfl := some.inj member
    exact continues previous last
  · rw [append.cursorValue, append.coordinates, List.getLast?_concat, hashed,
      chainHashOver_eq ordered, epoch, length_append]
    rfl
  · intro other member
    rcases mem_append.mp member with earlier | last
    · exact chain.wellFormed other earlier
    · rw [mem_singleton.mp last]
      exact wellFormed
  · intro last member
    rw [List.getLast?_concat] at member
    rw [← some.inj member]
    exact hashed
  · intro last member
    rw [List.getLast?_concat] at member
    rw [← some.inj member, length_append, length_singleton, ← epoch]
    exact ⟨append.sequenceRoom, append.epochRoom⟩

theorem cursor_spec (chain : StoredChain sha256 hasher store receipts)
    (bounded : WordHashes hasher) :
    (cursor : StoreCall (Option ReceiptCursor)).Ensures store
      (fun found next => next = store ∧ found = receipts.getLast?.map fun last =>
        cursorAfter sha256 hasher receipts.length last.signed)
      fun _ _ => False := by
  rw [cursor, ensures_bind, ensures_get, chain.cursorValue]
  rcases found : receipts.getLast? with _ | last
  · exact ensures_pure.mpr ⟨rfl, rfl⟩
  · simp only [map_some, ensures_bind, ensures_reading]
    apply (chain.decoded bounded found).weaken
    rintro decoded _ rfl
    exact ensures_pure.mpr ⟨rfl, rfl⟩

theorem receipt_spec (chain : StoredChain sha256 hasher store receipts) (epoch : Nat) :
    (receipt epoch).Ensures store
      (fun found next => next = store ∧ found = receipts[epoch]?.map fun verified => verified.signed)
      fun _ _ => False := by
  rw [receipt, ensures_bind, ensures_get, chain.stored]
  rcases found : receipts[epoch]? with _ | verified
  · exact ensures_pure.mpr ⟨rfl, rfl⟩
  · simp only [map_some, ensures_bind, ensures_translate, ensures_reading]
    generalize encoded : verified.signed.toBytes = bytes
    apply (fromBytes_toBytes
      (chain.wellFormed verified (mem_of_getElem? found)) encoded).weaken
    rintro signed _ rfl
    exact ensures_pure.mpr ⟨rfl, rfl⟩

theorem epoch_injective (chain : StoredChain sha256 hasher store receipts)
    {first second : VerifiedContextEpochReceipt sha256} (left : first ∈ receipts)
    (right : second ∈ receipts)
    (same : first.signed.receipt.epochId = second.signed.receipt.epochId) : first = second := by
  obtain ⟨i, found⟩ := mem_iff_getElem?.mp left
  obtain ⟨j, other⟩ := mem_iff_getElem?.mp right
  rw [chain.numbered i first found, chain.numbered j second other] at same
  rw [same, other] at found
  exact (some.inj found).symm

theorem accepts (chain : StoredChain sha256 hasher store receipts) (bounded : WordHashes hasher)
    (known : verified.signed.verify sha256 signer = .ok verified)
    (previousKnown : ∀ last ∈ receipts.getLast?, last.signed.verify sha256 signer = .ok last)
    (genesis : receipts = [] → verified.verifyGenesis = .ok ())
    (continues : ∀ last ∈ receipts.getLast?, verified.verifySuccessor hasher last = .ok ())
    (linked : ∀ last ∈ receipts.getLast?,
      verified.signed.receipt.previousReceipt = last.signed.receiptId sha256)
    (ordered : verified.signed.receipt.firstSequence ≤ verified.signed.receipt.lastSequence + 1)
    (epochRoom : receipts.length + 1 ≤ u64Max)
    (sequenceRoom : verified.signed.receipt.lastSequence + 1 ≤ u64Max)
    (coordinates : following = cursorAfter sha256 hasher (receipts.length + 1) verified.signed) :
    (appendVerified sha256 hasher true verified.signed following signer).Ensures store
      (fun _ next => next.cursorValue = some following.encode) fun _ _ => False := by
  have epoch := chain.epochId_eq genesis continues
  have hashed := chain.initialChainHash_eq genesis continues
  have fresh : store.receipts receipts.length = none := by
    rw [chain.stored, List.getElem?_eq_none (Nat.le_refl _)]
    rfl
  have follows : (verifyFollows sha256 hasher verified signer).Ensures store
      (fun _ next => next = store) fun _ _ => False := by
    rw [verifyFollows, ensures_bind, ensures_get, chain.cursorValue]
    rcases found : receipts.getLast? with _ | last
    · simp only [map_none, ensures_translate, genesis (List.getLast?_eq_none_iff.mp found)]
      exact ensures_pure.mpr rfl
    · simp only [map_some, verifyContinues, ensures_bind, ensures_reading]
      apply (chain.decoded bounded found).weaken
      rintro current _ rfl
      have stored : store.receipts (receipts.length - 1) = some last.signed.toBytes := by
        rw [chain.stored, ← List.getLast?_eq_getElem?, found]
        rfl
      have later : receipts.length ≠ 0 := by
        intro empty
        rw [length_eq_zero_iff.mp empty] at found
        cases found
      have same : ¬((cursorAfter sha256 hasher receipts.length last.signed).nextEpochId ≠
            verified.signed.receipt.epochId ∨
          (cursorAfter sha256 hasher receipts.length last.signed).previousReceiptId ≠
            verified.signed.receipt.previousReceipt) := by
        simp [cursorAfter, epoch, linked last found]
      simp only [ensures_throwIf, ensures_get, ensures_orThrow, ensures_translate,
        ensures_orRefusal, ensures_reading]
      refine ⟨fun other => same other, fun _ => ⟨fun zero => later (epoch ▸ zero), fun _ => ?_⟩⟩
      rw [epoch, stored]
      refine ⟨fun bytes encoded => ?_, fun impossible => by cases impossible⟩
      apply (fromBytes_toBytes
        (chain.wellFormed last (mem_of_getLast? found)) (some.inj encoded)).weaken
      rintro signed _ rfl
      rw [previousKnown last found]
      simp [continues last found]
  have added := @chainHashOver_eq hasher _ _ ordered
  simp only [appendVerified, ensures_bind, ensures_translate, ensures_orRefusal, ensures_orThrow,
    ensures_throwIf, ensures_atomically, ensures_get, known, epoch, fresh, hashed, added,
    checkedAdd64_of_le epochRoom, checkedAdd64_of_le sequenceRoom]
  subst coordinates
  simp only [Except.ok.injEq, Option.some.injEq, cursorAfter, ne_eq, not_true_eq_false, or_false,
    imp_false, Decidable.not_not, not_false_eq_true, isSome_none,
    Bool.false_eq_true, Bool.true_eq_false, forall_const, true_and, ensures_modify, forall_eq',
    reduceCtorEq, and_true, implies_true]
  apply follows.weaken
  simp

end StoredChain

/-! ### Sequences of appends -/

structure Attempt where
  commits : Bool
  receipt : SignedContextEpochReceipt
  wellFormed : receipt.WellFormed
  following : ReceiptCursor
  signer : WitnessSigner

abbrev Event := Attempt × Except ServiceError Unit

def storedReceipt (event : Event) : Option SignedContextEpochReceipt :=
  match event.2 with
  | .ok _ => some event.1.receipt
  | .error _ => none

/-- The calls, in any order. -/
def Step (sha256 : List UInt8 → Octets 32) (hasher : ChainHasher) (here : DurableReceiptStore)
    (event : Event) (next : DurableReceiptStore) : Prop :=
  (appendVerified sha256 hasher event.1.commits event.1.receipt event.1.following
    event.1.signer).runFrom here = some (event.2, next)

theorem step_stored (attempt : Attempt) {outcome : Except ServiceError Unit}
    (step : Step sha256 hasher store (attempt, outcome) next) :
    (∃ verified, outcome = .ok () ∧ verified.signed = attempt.receipt ∧
        Appended sha256 hasher store verified attempt.following attempt.signer next) ∨
      ∃ reason, outcome = .error reason ∧ next = store := by
  have spec := @appendVerified_spec sha256 hasher store attempt.commits attempt.receipt
    attempt.following attempt.signer
  rw [Ensures, step] at spec
  cases outcome with
  | ok value =>
    obtain ⟨verified, signed, append⟩ := spec
    exact .inl ⟨verified, rfl, signed, append⟩
  | error reason => exact .inr ⟨reason, rfl, spec⟩

theorem storedChain_run (bounded : WordHashes hasher)
    {events : List Event} (run : Run (Step sha256 hasher) opened events store) :
    ∃ receipts, StoredChain sha256 hasher store receipts ∧
      receipts.map (fun verified => verified.signed) = events.filterMap storedReceipt := by
  induction run with
  | nil => exact ⟨[], storedChain_opened, rfl⟩
  | @snoc events event _ _ _ step ih =>
    obtain ⟨receipts, chain, receipts_eq⟩ := ih
    obtain ⟨attempt, outcome⟩ := event
    rw [filterMap_append, ← receipts_eq]
    rcases step_stored attempt step with ⟨verified, rfl, signed, append⟩ | ⟨reason, rfl, rfl⟩
    · refine ⟨receipts ++ [verified], chain.appended bounded ?_ append, ?_⟩
      · rw [signed]
        exact attempt.wellFormed
      · rw [map_append, map_singleton, signed]
        rfl
    · exact ⟨receipts, chain, (append_nil _).symm⟩

end DurableReceiptStore

end Rvm.Service
