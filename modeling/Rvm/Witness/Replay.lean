import Mathlib.Data.Nat.Pairing
import Rvm.Witness.Log

/-!
Owns chain verification (`rvm-witness/src/replay.rs`). A record's `record_hash` is the
folded chain hash of the previous hash and the sequence number, so verification never reads
the content fields.
-/

namespace Rvm.Witness

open WitnessLog

inductive ChainIntegrityError where
  | chainBreak (sequence : Nat)
  | recordCorrupted (sequence : Nat)
  | emptyLog
deriving DecidableEq, Repr

def verifyRecords (hasher : ChainHasher) :
    List WitnessRecord → Nat → Nat → Except ChainIntegrityError Unit
  | [], _, _ => .ok ()
  | record :: rest, prevChainHash, expectedSequence =>
    if record.sequence ≠ expectedSequence then .error (.chainBreak record.sequence)
    else if record.prevHash ≠ hasher.foldU64ToU32 prevChainHash then
      .error (.chainBreak record.sequence)
    else if record.recordHash ≠
        hasher.foldU64ToU32 (hasher.computeChainHash prevChainHash record.sequence) then
      .error (.recordCorrupted record.sequence)
    else
      verifyRecords hasher rest (hasher.computeChainHash prevChainHash record.sequence)
        (asU64 (expectedSequence + 1))

/-- Verify a contiguous epoch; returns the number of records. -/
def verifyChainFrom (hasher : ChainHasher) (records : List WitnessRecord)
    (initialChainHash expectedFirstSequence : Nat) : Except ChainIntegrityError Nat :=
  if records.isEmpty then .error .emptyLog
  else
    match verifyRecords hasher records initialChainHash expectedFirstSequence with
    | .error e => .error e
    | .ok () => .ok records.length

def verifyChain (hasher : ChainHasher) (records : List WitnessRecord) :
    Except ChainIntegrityError Nat :=
  verifyChainFrom hasher records 0 0

variable {N : Nat} {hasher : ChainHasher}

theorem verifyRecords_produced (calls : List WitnessCall) (log : WitnessLog) :
    verifyRecords hasher (log.produced N hasher calls) log.chainHash log.sequence = .ok () := by
  induction calls generalizing log with
  | nil => rfl
  | cons call rest ih =>
    have continued := ih (log.apply N hasher call)
    rw [apply_eq_store] at continued
    simp only [produced, verifyRecords, emits_sequence,
      emits_prevHash, emits_recordHash, ne_eq, not_true_eq_false, if_false]
    rw [apply_eq_store]
    exact continued

theorem verifyChainFrom_produced (log : WitnessLog) (calls : List WitnessCall)
    (nonempty : calls ≠ []) :
    verifyChainFrom hasher (log.produced N hasher calls) log.checkpoint.chainHash
      log.checkpoint.nextSequence = .ok (log.produced N hasher calls).length := by
  have produces : (log.produced N hasher calls).isEmpty = false := by
    cases calls with
    | nil => exact absurd rfl nonempty
    | cons _ _ => rfl
  simp only [verifyChainFrom, checkpoint, produces, verifyRecords_produced,
    Bool.false_eq_true, if_false]

/-- The two records agree on everything but the content fields. -/
structure SameFrame (record edited : WitnessRecord) : Prop where
  sequence : edited.sequence = record.sequence
  prevHash : edited.prevHash = record.prevHash
  recordHash : edited.recordHash = record.recordHash
  aux : edited.aux = record.aux

structure ContentEdit (records edited : List WitnessRecord) : Prop where
  frame : List.Forall₂ SameFrame records edited
  changed : edited ≠ records

def TamperEvident (hasher : ChainHasher) (records : List WitnessRecord)
    (initialChainHash expectedFirstSequence : Nat) : Prop :=
  ∀ edited, ContentEdit records edited →
    ∃ e, verifyChainFrom hasher edited initialChainHash expectedFirstSequence = .error e

theorem SameFrame.refl (record : WitnessRecord) : SameFrame record record := ⟨rfl, rfl, rfl, rfl⟩

theorem verifyRecords_congr {records edited : List WitnessRecord}
    (frame : List.Forall₂ SameFrame records edited) :
    ∀ prevChainHash expectedSequence, verifyRecords hasher edited prevChainHash expectedSequence =
      verifyRecords hasher records prevChainHash expectedSequence := by
  induction frame with
  | nil => exact fun _ _ => rfl
  | cons same _ ih =>
    intro prevChainHash expectedSequence
    simp only [verifyRecords, same.sequence, same.prevHash, same.recordHash, ih]

theorem verifyChainFrom_congr {records edited : List WitnessRecord}
    (frame : List.Forall₂ SameFrame records edited) (initialChainHash expectedFirstSequence : Nat) :
    verifyChainFrom hasher edited initialChainHash expectedFirstSequence =
      verifyChainFrom hasher records initialChainHash expectedFirstSequence := by
  have sameEmpty : edited.isEmpty = records.isEmpty := by
    cases frame <;> rfl
  rw [verifyChainFrom, verifyChainFrom, sameEmpty, verifyRecords_congr frame, ← frame.length_eq]

/-- The first record ascribed to another partition. -/
def moveActor : List WitnessRecord → List WitnessRecord
  | [] => []
  | record :: rest =>
    { record with actorPartitionId := if record.actorPartitionId = 0 then 1 else 0 } :: rest

theorem moveActor_contentEdit {records : List WitnessRecord} (nonempty : records ≠ []) :
    ContentEdit records (moveActor records) := by
  cases records with
  | nil => exact absurd rfl nonempty
  | cons record rest =>
    refine ⟨.cons ⟨rfl, rfl, rfl, rfl⟩ (List.forall₂_same.mpr fun other _ => .refl other), ?_⟩
    intro same
    have actors := congrArg WitnessRecord.actorPartitionId (List.cons.inj same).1
    dsimp only at actors
    split at actors <;> omega

/-- No accepted list is tamper-evident, whatever the hash functions: every
content edit of it is accepted with the same result, and there is one. -/
theorem content_never_covered (hasher : ChainHasher) (records : List WitnessRecord)
    (initialChainHash expectedFirstSequence count : Nat)
    (accepted : verifyChainFrom hasher records initialChainHash expectedFirstSequence = .ok count) :
    ¬ TamperEvident hasher records initialChainHash expectedFirstSequence ∧
      ∀ edited, ContentEdit records edited →
        verifyChainFrom hasher edited initialChainHash expectedFirstSequence = .ok count := by
  have allAccepted : ∀ edited, ContentEdit records edited →
      verifyChainFrom hasher edited initialChainHash expectedFirstSequence = .ok count :=
    fun edited edit => (verifyChainFrom_congr edit.frame _ _).trans accepted
  refine ⟨fun evident => ?_, allAccepted⟩
  have nonempty : records ≠ [] := by
    rintro rfl
    cases accepted
  have edit := moveActor_contentEdit nonempty
  obtain ⟨e, rejected⟩ := evident _ edit
  rw [allAccepted _ edit] at rejected
  cases rejected

/-- An injective stand-in for the hash functions. -/
def pairingHasher : ChainHasher := ⟨Nat.pair, id⟩

def sampleProduced : List WitnessRecord :=
  WitnessLog.new.produced 16 pairingHasher [.append { WitnessRecord.zeroed with actorPartitionId := 7 }]

theorem content_never_covered_sample :
    ¬ TamperEvident pairingHasher sampleProduced 0 0 :=
  (content_never_covered pairingHasher sampleProduced 0 0 1 (by decide)).1

/-- With injective hash functions, the record of partition `7` is accepted as
produced and also after it was ascribed to partition `0`. -/
theorem actor_edit_accepted :
    (∀ prev sequence otherPrev otherSequence,
      pairingHasher.computeChainHash prev sequence =
        pairingHasher.computeChainHash otherPrev otherSequence →
      prev = otherPrev ∧ sequence = otherSequence) ∧
    (∀ left right, pairingHasher.foldU64ToU32 left = pairingHasher.foldU64ToU32 right →
      left = right) ∧
    ContentEdit sampleProduced (moveActor sampleProduced) ∧
    verifyChain pairingHasher sampleProduced = .ok 1 ∧
    verifyChain pairingHasher (moveActor sampleProduced) = .ok 1 := by
  refine ⟨fun _ _ _ _ same => Nat.pair_eq_pair.mp same, fun _ _ same => same, ?_, by decide,
    by decide⟩
  exact moveActor_contentEdit (by decide)

end Rvm.Witness
