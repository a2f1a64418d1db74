import Rvm.Cap.Derivation
import Rvm.Foundation.Run
import Rvm.Types.Basic

/-!
Owns the nonce tracker that `rvm-cap/src/verify.rs` and `rvm-proof/src/policy.rs` both
carry, the abstract form of both verification paths as a machine gated by it, and the P2
path of `rvm-cap/src/verify.rs`.
-/

namespace Rvm.Cap

def nonceRingSize : Nat := 4096

/-- The tracker fields. Arrays are functions; indices below `nonceRingSize` are
meaningful. -/
structure NonceTracker where
  nonceRing : Nat → Nat
  nonceHash : Nat → Nat
  nonceWritePos : Nat
  nonceWatermark : Nat

namespace NonceTracker

def new : NonceTracker := ⟨fun _ => 0, fun _ => 0, 0, 0⟩

def seen (tracker : NonceTracker) (nonce : Nat) : Bool :=
  if nonce ≤ tracker.nonceWatermark then true
  else tracker.nonceHash (nonce % nonceRingSize) == nonce

/-- The least nonzero ring entry, starting from `u64::MAX`. -/
def ringMin (ring : Nat → Nat) : Nat :=
  (List.range nonceRingSize).foldl
    (fun minVal index => if ring index ≠ 0 ∧ ring index < minVal then ring index else minVal) u64Max

/-- The watermark after `nonce` is recorded: raised when the write position
wraps to `0`. -/
def nextWatermark (tracker : NonceTracker) (nonce : Nat) : Nat :=
  if (tracker.nonceWritePos + 1) % nonceRingSize = 0 then
    let minVal := ringMin (Function.update tracker.nonceRing tracker.nonceWritePos nonce)
    if minVal ≠ u64Max ∧ minVal > tracker.nonceWatermark then minVal else tracker.nonceWatermark
  else tracker.nonceWatermark

def record (tracker : NonceTracker) (nonce : Nat) : NonceTracker where
  nonceRing := Function.update tracker.nonceRing tracker.nonceWritePos nonce
  nonceHash := Function.update tracker.nonceHash (nonce % nonceRingSize) nonce
  nonceWritePos := (tracker.nonceWritePos + 1) % nonceRingSize
  nonceWatermark := tracker.nextWatermark nonce

/-- Recording `nonce` forgets nothing: what it displaces from its hash slot is
at or below the watermark it leaves. -/
def NoLiveEviction (tracker : NonceTracker) (nonce : Nat) : Prop :=
  tracker.nonceHash (nonce % nonceRingSize) ≤ tracker.nextWatermark nonce

instance (tracker : NonceTracker) (nonce : Nat) : Decidable (tracker.NoLiveEviction nonce) := by
  unfold NoLiveEviction
  infer_instance

variable {tracker : NonceTracker} {nonce : Nat}

theorem seen_iff : tracker.seen nonce = true ↔
    nonce ≤ tracker.nonceWatermark ∨ tracker.nonceHash (nonce % nonceRingSize) = nonce := by
  unfold seen
  split
  · next low => simp [low]
  · next high => simp [high]

theorem watermark_le_next : tracker.nonceWatermark ≤ tracker.nextWatermark nonce := by
  unfold nextWatermark
  split
  · dsimp only
    split <;> omega
  · exact Nat.le_refl _

theorem record_seen_self : (tracker.record nonce).seen nonce = true := by
  rw [seen_iff]
  exact Or.inr (by simp [record])

/-- A nonce that was refused stays refused, unless recording displaces it from
its hash slot while it is above the new watermark. -/
theorem record_seen_old {old : Nat} (refused : tracker.seen old = true)
    (kept : tracker.NoLiveEviction nonce) : (tracker.record nonce).seen old = true := by
  rw [seen_iff] at *
  rcases refused with low | hashed
  · exact Or.inl (Nat.le_trans low watermark_le_next)
  · by_cases same : old % nonceRingSize = nonce % nonceRingSize
    · left
      unfold NoLiveEviction at kept
      rwa [← same, hashed] at kept
    · right
      simpa [record, same] using hashed

/-- A displaced entry above the new watermark is accepted again. -/
theorem record_forgets (unseen : tracker.seen nonce = false)
    (placed : tracker.nonceHash (nonce % nonceRingSize) % nonceRingSize = nonce % nonceRingSize)
    (lost : ¬ tracker.NoLiveEviction nonce) :
    (tracker.record nonce).seen (tracker.nonceHash (nonce % nonceRingSize)) = false := by
  have different : tracker.nonceHash (nonce % nonceRingSize) ≠ nonce := by
    intro same
    have := seen_iff.mpr (Or.inr same)
    rw [this] at unseen
    cases unseen
  rw [← Bool.not_eq_true, seen_iff, not_or]
  refine ⟨lost, ?_⟩
  simpa [record, placed] using Ne.symm different

end NonceTracker

open Foundation

/-- A machine each of whose calls either is refused and leaves the tracker as
it was, or passes and records its nonce. `clears` are the checks that do not
depend on the tracker. -/
structure NonceGated (State Call : Type) where
  step : State → Call → Bool × State
  tracker : State → NonceTracker
  nonce : Call → Nat
  clears : Call → Bool
  accepts : ∀ state call, nonce call ≠ 0 →
    ((step state call).1 = true ↔ clears call = true ∧ (tracker state).seen (nonce call) = false)
  refused : ∀ state call, (step state call).1 = false → tracker (step state call).2 = tracker state
  zero : ∀ state call, nonce call = 0 → tracker (step state call).2 = tracker state
  recorded : ∀ state call, nonce call ≠ 0 → (step state call).1 = true →
    tracker (step state call).2 = (tracker state).record (nonce call)

namespace NonceGated

variable {State Call : Type} (machine : NonceGated State Call)

/-- One call, labelled with whether it was accepted. -/
def Step (here : State) (label : Call × Bool) (next : State) : Prop :=
  machine.step here label.1 = (label.2, next)

def Accepted (history : List (Call × Bool)) (nonce : Nat) : Prop :=
  nonce ≠ 0 ∧ ∃ call, (call, true) ∈ history ∧ machine.nonce call = nonce

def Refuses (history : List (Call × Bool)) (here : State) : Prop :=
  ∀ nonce, machine.Accepted history nonce →
    ∀ call, machine.nonce call = nonce → (machine.step here call).1 = false

def Remembers (history : List (Call × Bool)) (here : State) : Prop :=
  ∀ nonce, machine.Accepted history nonce → (machine.tracker here).seen nonce = true

def Keeps (here : State) (label : Call × Bool) : Prop :=
  label.2 = true → machine.nonce label.1 ≠ 0 →
    (machine.tracker here).NoLiveEviction (machine.nonce label.1)

/-- What is in the hash was accepted, and sits in its own slot. -/
def Placed (history : List (Call × Bool)) (here : State) : Prop :=
  ∀ index, (machine.tracker here).nonceHash index ≠ 0 →
    (∃ call, (call, true) ∈ history ∧ machine.clears call = true ∧
      machine.nonce call = (machine.tracker here).nonceHash index) ∧
    (machine.tracker here).nonceHash index % nonceRingSize = index

variable {machine} {start here next : State} {history : List (Call × Bool)}

theorem step_functional (here : State) (label : Call × Bool) (left right : State)
    (first : machine.Step here label left) (second : machine.Step here label right) :
    left = right :=
  (Prod.mk.inj (first.symm.trans second)).2

theorem Step.parts {call : Call} {accepted : Bool}
    (step : machine.Step here (call, accepted) next) :
    (machine.step here call).1 = accepted ∧ (machine.step here call).2 = next :=
  ⟨congrArg Prod.fst step, congrArg Prod.snd step⟩

theorem placed_of_run (fresh : machine.tracker start = NonceTracker.new)
    (run : Run machine.Step start history here) : machine.Placed history here := by
  refine run.invariant ?_ ?_
  · intro index nonzero
    simp [fresh, NonceTracker.new] at nonzero
  · intro history here label next _ placed step
    obtain ⟨call, accepted⟩ := label
    obtain ⟨outcome, nextEq⟩ := Step.parts step
    have old : machine.tracker next = machine.tracker here →
        machine.Placed (history ++ [(call, accepted)]) next := by
      intro same index nonzero
      rw [same] at nonzero ⊢
      obtain ⟨⟨before, member, clear, value⟩, slot⟩ := placed index nonzero
      exact ⟨⟨before, List.mem_append_left _ member, clear, value⟩, slot⟩
    by_cases isZero : machine.nonce call = 0
    · exact old (nextEq ▸ machine.zero here call isZero)
    · cases accepted with
      | false => exact old (nextEq ▸ machine.refused here call outcome)
      | true =>
        have after := machine.recorded here call isZero outcome
        rw [nextEq] at after
        intro index nonzero
        rw [after] at nonzero ⊢
        by_cases isSlot : index = machine.nonce call % nonceRingSize
        · subst isSlot
          have clear := ((machine.accepts here call isZero).mp outcome).1
          exact ⟨⟨call, by simp, clear, by simp [NonceTracker.record]⟩,
            by simp [NonceTracker.record]⟩
        · have unchanged : (NonceTracker.record (machine.tracker here) (machine.nonce call)).nonceHash
              index = (machine.tracker here).nonceHash index := by
            simp [NonceTracker.record, isSlot]
          rw [unchanged] at nonzero ⊢
          obtain ⟨⟨before, member, clear, value⟩, slot⟩ := placed index nonzero
          exact ⟨⟨before, List.mem_append_left _ member, clear, value⟩, slot⟩

theorem extend (run : Run machine.Step start history here) (call : Call) {accepted : Bool}
    (outcome : (machine.step here call).1 = accepted) :
    Run machine.Step start (history ++ [(call, accepted)]) (machine.step here call).2 :=
  run.snoc (Prod.ext outcome rfl)

theorem refuses_of_seen (seen : machine.Remembers history here) : machine.Refuses history here := by
  intro nonce accepted call same
  have nonzero : machine.nonce call ≠ 0 := same ▸ accepted.1
  rw [← Bool.not_eq_true, machine.accepts here call nonzero, same, seen nonce accepted]
  simp

theorem seen_of_run
    (run : Run (Guarded machine.Step machine.Keeps) start history here) :
    machine.Remembers history here := by
  refine run.invariant ?_ ?_
  · rintro nonce ⟨_, call, member, _⟩
    cases member
  · intro history here label next _ seen step nonce
    obtain ⟨call, accepted⟩ := label
    obtain ⟨step, keeps⟩ := step
    obtain ⟨outcome, nextEq⟩ := Step.parts step
    rintro ⟨nonzero, other, member, value⟩
    by_cases isZero : machine.nonce call = 0
    · rw [← nextEq, machine.zero here call isZero]
      refine seen nonce ⟨nonzero, other, ?_, value⟩
      rcases List.mem_append.mp member with early | last
      · exact early
      · obtain ⟨rfl, -⟩ := Prod.mk.inj (List.mem_singleton.mp last)
        exact absurd (value ▸ isZero) nonzero
    · cases accepted with
      | false =>
        rw [← nextEq, machine.refused here call outcome]
        refine seen nonce ⟨nonzero, other, ?_, value⟩
        simpa using member
      | true =>
        rw [← nextEq, machine.recorded here call isZero outcome]
        rcases List.mem_append.mp member with early | last
        · exact NonceTracker.record_seen_old (seen nonce ⟨nonzero, other, early, value⟩)
            (keeps rfl isZero)
        · obtain ⟨rfl, -⟩ := Prod.mk.inj (List.mem_singleton.mp last)
          rw [← value]
          exact NonceTracker.record_seen_self

/-- No replay in any reached state exactly when no accepted call displaced a
nonce that is still above the watermark. -/
theorem refuses_iff_keeps (fresh : machine.tracker start = NonceTracker.new)
    (run : Run machine.Step start history here) :
    (∀ first second middle, history = first ++ second → Run machine.Step start first middle →
        machine.Refuses first middle) ↔
      ∀ first label rest middle, history = first ++ label :: rest →
        Run machine.Step start first middle → machine.Keeps middle label := by
  constructor
  · intro refuses first label rest middle split before isAccepted nonzero
    obtain ⟨call, accepted⟩ := label
    obtain rfl : accepted = true := isAccepted
    by_contra lost
    -- The displaced entry was accepted; the very call that brought it passes again.
    have restRun : Run machine.Step start (first ++ [(call, true)] ++ rest) here := by
      simpa [split] using run
    obtain ⟨after, upTo, -⟩ := restRun.split
    have refusesAfter := refuses (first ++ [(call, true)]) rest after (by simp [split]) upTo
    obtain ⟨middle', before', step⟩ := upTo.last
    obtain rfl : middle = middle' := before.deterministic step_functional before'
    obtain ⟨outcome, afterEq⟩ := Step.parts step
    have entryNonzero : (machine.tracker middle).nonceHash
        (machine.nonce call % nonceRingSize) ≠ 0 := by
      intro isZero
      apply lost
      unfold NonceTracker.NoLiveEviction
      rw [isZero]
      exact Nat.zero_le _
    obtain ⟨⟨earlier, member, clear, value⟩, placed⟩ :=
      placed_of_run fresh before _ entryNonzero
    have unseen := ((machine.accepts middle call nonzero).mp outcome).2
    have forgotten := NonceTracker.record_forgets unseen placed lost
    have earlierNonzero : machine.nonce earlier ≠ 0 := value ▸ entryNonzero
    have passes : (machine.step after earlier).1 = true := by
      rw [machine.accepts after earlier earlierNonzero, value, ← afterEq,
        machine.recorded middle call nonzero outcome]
      exact ⟨clear, forgotten⟩
    have refusedEarlier := refusesAfter (machine.nonce earlier)
      ⟨earlierNonzero, earlier, List.mem_append_left _ member, rfl⟩ earlier rfl
    rw [passes] at refusedEarlier
    cases refusedEarlier
  · intro keeps first second middle split before
    have guarded : Run (Guarded machine.Step machine.Keeps) start first middle := by
      refine before.guarded fun left label right there equal leftRun => ?_
      exact keeps left label (right ++ second) there (by simp [split, equal]) leftRun
    exact refuses_of_seen (seen_of_run guarded)

end NonceGated

/-- Errors of the three-layer proof verification. -/
inductive ProofError where
  | invalidHandle | staleCapability | insufficientRights | policyViolation | p3NotImplemented
  | derivationChainBroken
deriving DecidableEq, Repr

structure PolicyContext where
  expectedOwner : Nat
  regionBase : Nat
  regionLimit : Nat
  leaseExpiryNs : Nat
  currentTimeNs : Nat
  maxDelegationDepth : Nat
  nonce : Nat
deriving DecidableEq, Repr

structure ProofVerifier extends NonceTracker where
  currentEpoch : Nat
  allowZeroNonce : Bool

def DerivationTree.depthAt (N : Nat) (tree : DerivationTree) (index : Nat) :
    Except CapError Nat :=
  if index ≥ N ∨ !(tree.nodes index).isValid then .error .invalidHandle
  else .ok (tree.nodes index).depth

namespace ProofVerifier

def new (epoch : Nat) : ProofVerifier :=
  { NonceTracker.new with currentEpoch := epoch, allowZeroNonce := false }

def setEpoch (verifier : ProofVerifier) (epoch : Nat) : ProofVerifier :=
  { verifier with currentEpoch := epoch }

def checkNonce (verifier : ProofVerifier) (nonce : Nat) : Bool :=
  if nonce = 0 then verifier.allowZeroNonce else !verifier.toNonceTracker.seen nonce

def markNonce (verifier : ProofVerifier) (nonce : Nat) : ProofVerifier :=
  if nonce = 0 then verifier
  else { verifier with toNonceTracker := verifier.toNonceTracker.record nonce }

/-- The checks of `verify_p2` that do not read the verifier. -/
def structuralChecks (N : Nat) (table : CapabilityTable) (tree : DerivationTree)
    (capIndex capGeneration : Nat) (ctx : PolicyContext) : Bool :=
  let ownerOk :=
    match table.lookup N capIndex capGeneration with
    | .ok slot => slot.owner.asU32 == ctx.expectedOwner
    | .error _ => false
  let depthOk :=
    match tree.depthAt N capIndex with
    | .ok depth => decide (depth ≤ ctx.maxDelegationDepth)
    | .error _ => false
  ownerOk && decide (ctx.regionBase < ctx.regionLimit) &&
    decide (ctx.currentTimeNs ≤ ctx.leaseExpiryNs) && depthOk

/-- All checks run; the nonce is recorded only when every one passed. -/
def verifyP2 (N : Nat) (verifier : ProofVerifier) (table : CapabilityTable)
    (tree : DerivationTree) (capIndex capGeneration : Nat) (ctx : PolicyContext) :
    Except ProofError Unit × ProofVerifier :=
  let valid := structuralChecks N table tree capIndex capGeneration ctx &&
    verifier.checkNonce ctx.nonce
  if valid then (.ok (), verifier.markNonce ctx.nonce)
  else (.error .policyViolation, verifier)

/-- The arguments of one `verify_p2` call. The table and the tree are the
caller's and may differ from call to call. -/
structure P2Call where
  table : CapabilityTable
  tree : DerivationTree
  capIndex : Nat
  capGeneration : Nat
  ctx : PolicyContext

def callP2 (N : Nat) (verifier : ProofVerifier) (call : P2Call) : Bool × ProofVerifier :=
  let (result, next) :=
    verifyP2 N verifier call.table call.tree call.capIndex call.capGeneration call.ctx
  (result.isOk, next)

/-- `verify_p2` passes exactly when its structural checks pass and the tracker
does not refuse the nonce. -/
def gated (N : Nat) : NonceGated ProofVerifier P2Call where
  step := callP2 N
  tracker := toNonceTracker
  nonce := fun call => call.ctx.nonce
  clears := fun call =>
    structuralChecks N call.table call.tree call.capIndex call.capGeneration call.ctx
  accepts := by
    intro verifier call nonzero
    simp only [callP2, verifyP2, checkNonce, if_neg nonzero]
    split
    · next valid => simpa [Except.isOk, Except.toBool] using valid
    · next invalid => simpa [Except.isOk, Except.toBool] using invalid
  refused := by
    intro verifier call
    simp only [callP2, verifyP2]
    split
    · simp [Except.isOk, Except.toBool]
    · simp
  zero := by
    intro verifier call isZero
    simp only [callP2, verifyP2]
    split
    · simp [markNonce, isZero]
    · rfl
  recorded := by
    intro verifier call nonzero
    simp only [callP2, verifyP2]
    split
    · simp [markNonce, nonzero]
    · simp [Except.isOk, Except.toBool]

end ProofVerifier

end Rvm.Cap
