import Rvm.Foundation.Postconditions
import Rvm.Foundation.Run
import Rvm.Rvf.Stream.DescriptorCodec

/-!
Owns what a refused frame leaves of a verifier, and that a terminal state is
left by no later call of a receiver (`rvm-rvf/src/stream/verifier.rs` and
`chunk.rs`). No state is assumed to be one a stream reaches.
-/

namespace Rvm.Rvf

open Foundation Foundation.Call StreamVerifier

/-- What a refused frame leaves of `here`: a count, a poisoned stream or a
rejected descriptor. -/
inductive Refusal (here : StreamVerifier) : StreamVerifier → Prop where
  | counted (faults duplicatesIgnored : Nat) (lastFault : Option PoisonInfo) :
      Refusal here { here with faults, duplicatesIgnored, lastFault }
  | poisoned (faults duplicatesIgnored : Nat) (lastFault : Option PoisonInfo)
      (reason : StreamError) (seg : Option Nat) (chunk : Nat) :
      Refusal here
        ({ here with faults, duplicatesIgnored, lastFault }.forcePoison reason seg chunk)
  | rejected (reason : StreamError) (waiting : here.state = .awaitDescriptor) :
      Refusal here { here with state := .rejected reason }

section Frames

variable {v : StreamVerifier} {reason : StreamError} {seg : Option Nat}
  {chunk i idx segId : Nat} {bytes f : List UInt8} {primitives : Primitives}

theorem Refusal.refl (v : StreamVerifier) : Refusal v v :=
  .counted v.faults v.duplicatesIgnored v.lastFault

theorem refusal_poisonAt {faults duplicatesIgnored : Nat} {lastFault : Option PoisonInfo} :
    Refusal v ({ v with faults, duplicatesIgnored, lastFault }.poisonAt reason seg chunk) := by
  unfold poisonAt
  split
  all_goals first | exact .counted .. | exact .poisoned ..

@[simp]
theorem refusal_poisoning : Refusal v (poisoning reason seg chunk v) :=
  @refusal_poisonAt v reason seg chunk v.faults v.duplicatesIgnored v.lastFault

@[simp]
theorem refusal_faulting : Refusal v (faulting reason seg chunk v) := by
  unfold faulting fault
  dsimp only
  split
  · exact refusal_poisonAt
  · exact .counted ..

/-- `call` leaves `here` only as a refusal leaves it. -/
abbrev Refusing {α : Type} (call : StreamCall α) (here : StreamVerifier) : Prop :=
  call.Permits here (fun _ _ => True) fun _ => Refusal here

@[simp]
theorem countDuplicate_refusal : Refusing (countDuplicate segId idx) v := by
  simp only [countDuplicate, permits_bind, permits_modify, permits_get, permits_refuseIf]
  exact ⟨fun _ => refusal_poisonAt, fun _ => trivial⟩

theorem permits_wantedLeaf {e : StreamEntry} {leaves : Option (List UInt8)}
    {Returned : Octets 32 → StreamVerifier → Prop}
    {Refused : StreamError → StreamVerifier → Prop} (returned : ∀ want, Returned want v) :
    (wantedLeaf e leaves idx).Permits v Returned Refused := by
  cases leaves <;> simp [wantedLeaf, returned]

theorem onDuplicateChunk_refusal : Refusing (onDuplicateChunk primitives i idx bytes) v := by
  simp only [onDuplicateChunk, entryAt, segAt, permits_bind, permits_get, permits_orPanic,
    permits_pure, permits_refuseIf, permits_ite, refusal_poisoning, implies_true, true_and]
  intro _ _ _ _ _ _ _
  refine ⟨fun _ => countDuplicate_refusal, fun _ => permits_wantedLeaf fun want => ?_⟩
  exact ⟨fun _ => refusal_faulting, fun _ => countDuplicate_refusal⟩

theorem admitChunk_refusal :
    (admitChunk primitives i segId idx bytes).Permits v (fun _ next => next = v)
      fun _ next => Refusal v next := by
  simp only [admitChunk, entryAt, segAt, permits_bind, permits_get, permits_orPanic,
    permits_pure, permits_refuseIf, refusal_poisoning, refusal_faulting, implies_true, true_and]
  intro _ _ _ _ _ _ _ _ _ _
  refine permits_wantedLeaf fun want => ⟨fun _ => refusal_faulting, fun _ => ?_⟩
  simp [checkSegmentHeader, checkRootPage]

theorem completionStatus_keeps {extra : Nat} :
    (completionStatus primitives extra).Leaves v fun next => next = v := by
  simp only [completionStatus, permits_bind, permits_get, permits_orPanic, permits_throwIf]
  refine fun _ _ => ⟨fun _ => trivial, fun _ => ?_⟩
  cases v.identity <;> simp

/-- The verdict is reached after the identity hash is fed and before anything is
advanced; a stream that receives is poisoned with it, which drops the hash. -/
theorem completing_refusal {completes : Bool} {extra bodyOffset : Nat}
    (live : v.state = .ready ∨ v.state = .receiving) :
    (completing primitives completes segId idx extra).Permits (v.track bodyOffset bytes)
      (fun _ _ => True) fun _ next => Refusal v next := by
  simp only [completing, permits_ite, permits_bind, permits_attempt, permits_pure]
  refine ⟨fun _ => ?_, fun _ => trivial⟩
  apply completionStatus_keeps.mono
  · exact fun _ _ _ => trivial
  · rintro reason _ rfl
    rw [permits_refuse, poisoning, poisonAt, track]
    rcases live with live | live <;> rw [live] <;> exact .poisoned _ _ _ reason _ _

theorem releaseChunk_refusal (live : v.state = .ready ∨ v.state = .receiving) :
    Refusing (releaseChunk primitives i segId idx bytes) v := by
  simp only [releaseChunk, entryAt, segAt, permits_bind, permits_get, permits_orPanic,
    permits_pure, permits_modify]
  intro _ _ _ _ _ _
  apply (completing_refusal live).weaken
  intro _ _ _
  simp [advanceSegment]

theorem onChunk_refusal (live : v.state = .ready ∨ v.state = .receiving) :
    Refusing (onChunk primitives f) v := by
  simp only [onChunk, segAt, u64At, u32At, permits_bind, permits_get, permits_orPanic,
    permits_refuseIf, permits_orRefuse, permits_ite, refusal_poisoning, refusal_faulting,
    implies_true, true_and, and_true]
  intro _ _ _ _ _ _ _ _ _ _ _ _
  refine ⟨fun _ => onDuplicateChunk_refusal, fun _ => ?_⟩
  apply admitChunk_refusal.weaken
  rintro _ _ rfl
  exact releaseChunk_refusal live

theorem onTable_refusal : Refusing (onTable primitives f) v := by
  simp [onTable, segAt, entryAt, u64At, u32At]

theorem onDescriptorAgain_refusal : Refusing (onDescriptorAgain primitives f) v := by
  simp [onDescriptorAgain, repeatsDescriptor, u32At]

theorem install_refusal (waiting : v.state = .awaitDescriptor) :
    Refusing (install primitives bytes) v := by
  simp only [install, permits_bind, permits_get, permits_attempt]
  apply (decodeDescriptor_cleared primitives bytes v.policy v).permits.mono
  · intro d next _
    apply (@permits_forM _ _ _ _ _ (fun _ => True) _ _ trivial fun e here _ => ?_).weaken
    · simp
    · simp [openEntry]
  · rintro reason _ rfl
    exact permits_refuse.mpr (.rejected reason waiting)

theorem onFirstFrame_refusal (waiting : v.state = .awaitDescriptor) :
    Refusing (onFirstFrame primitives f) v := by
  simp [onFirstFrame, u32At, install_refusal waiting]

theorem dispatch_refusal (live : v.state = .ready ∨ v.state = .receiving) :
    Refusing (dispatch primitives f) v := by
  simp [dispatch, onChunk_refusal live, onTable_refusal, onDescriptorAgain_refusal]

theorem push_refusal (frame : List UInt8) : Refusing (push primitives frame) v := by
  simp only [push, permits_bind, permits_get]
  cases state : v.state
  case awaitDescriptor => exact onFirstFrame_refusal state
  case ready => simp [dispatch_refusal (.inl state)]
  case receiving => simp [dispatch_refusal (.inr state)]
  all_goals exact permits_throw.mpr (.refl v)

/-- Where later calls leave a terminal verifier: as it was, or poisoned again, with the
information of its first poisoning. -/
inductive Later (here : StreamVerifier) : StreamVerifier → Prop where
  | same : Later here here
  | poisoned (first last : StreamError) (info : PoisonInfo) (was : here.state = .poisoned first) :
      Later here { here with
        state := .poisoned last, identity := none, poisonInfo := here.poisonInfo.or (some info) }

theorem push_terminal {frame : List UInt8} (terminal : v.state.isTerminal) :
    (push primitives frame).Leaves v fun next => next = v := by
  simp only [push, permits_bind, permits_get]
  cases state : v.state <;> rw [state] at terminal <;> cases terminal
  all_goals exact permits_throw.mpr rfl

theorem terminal_step {next : StreamVerifier} {label : Request × Reply}
    (terminal : v.state.isTerminal) (step : Step primitives v label next) : Later v next := by
  obtain ⟨request, reply⟩ := label
  cases request with
  | push frame =>
    obtain ⟨⟨result, final⟩, ran, same⟩ := Option.map_eq_some_iff.mp step
    have kept := push_terminal terminal result final ran
    cases same
    cases result <;> rw [kept] <;> exact .same
  | _ =>
    cases step
    cases state : v.state <;> rw [state] at terminal <;> cases terminal
    all_goals simp only [poison, poisonAt, endOfInput, resume, state, reduceCtorEq, if_false]
    all_goals first | exact .same | exact .poisoned _ _ _ state

theorem Later.step {here next : StreamVerifier} {label : Request × Reply}
    (terminal : v.state.isTerminal) (later : Later v here)
    (step : Step primitives here label next) : Later v next := by
  cases later with
  | same => exact terminal_step terminal step
  | poisoned first last info was =>
    cases terminal_step rfl step with
    | same => exact .poisoned first last info was
    | poisoned _ again _ _ =>
      dsimp only
      rw [Option.or_assoc]
      exact .poisoned first again info was

end Frames

/-- What refused frames and later calls do to a verifier. -/
structure RefusalsStay (primitives : Primitives) (v : StreamVerifier) : Prop where
  refused : ∀ frame reason next,
    (push primitives frame).runFrom v = some (.error reason, next) → Refusal v next
  terminal : ∀ history final, v.state.isTerminal → Run (Step primitives) v history final →
    Later v final

/-- A refused frame advances nothing, whatever the state of the verifier, and no later
call moves a terminal one. -/
theorem refusedFrame_movesNothing (primitives : Primitives) (v : StreamVerifier) :
    RefusalsStay primitives v where
  refused := fun frame reason next refused => push_refusal frame (.error reason) next refused
  terminal := fun _ _ terminal run => run.stateInvariant .same
    fun _ _ _ later step => later.step terminal step

/-- A refused frame that poisons records where, and poisoning again changes the reason
in the state. -/
theorem refusedFrame_poisons :
    let fresh := StreamVerifier.new (.new [] .unpinned)
    let refused := fresh.forcePoison .unexpectedFrame none 0
    let again := refused.forcePoison .badState none 0
    (push noncePrimitives []).runFrom fresh = some (.error .unexpectedFrame, refused) ∧
      refused.poisonInfo ≠ fresh.poisonInfo ∧
      Step noncePrimitives refused (.poison .badState, .poisoned .badState) again ∧
      again.state ≠ refused.state := by
  refine ⟨rfl, by decide, rfl, by decide⟩

end Rvm.Rvf
