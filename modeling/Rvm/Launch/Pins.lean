import Rvm.Launch.Staleness

/-!
Owns how the pins of a shared store move: however the calls on the sessions that share it
interleave, a pin gives way only to a later epoch of its lineage, and only by a call on a session
that is then complete and whose identity is verified.
-/

namespace Rvm.Launch

open Foundation Foundation.Call Rvf Option StreamSession StreamAdmission StreamVerifier

abbrev MemoryPins := Octets 8 × Octets 16 → Option EpochPin

/-- Whatever was pinned stays, or a later epoch of its lineage is. -/
def Rises (pins next : MemoryPins) : Prop :=
  ∀ lineage, ∀ old ∈ pins lineage, ∃ new ∈ next lineage, old.epoch < new.epoch ∨
    old.epoch = new.epoch ∧ old.descriptorHash = new.descriptorHash

theorem Rises.trans {first second third : MemoryPins} (early : Rises first second)
    (late : Rises second third) : Rises first third := by
  intro lineage old pinned
  obtain ⟨middle, there, before⟩ := early lineage old pinned
  obtain ⟨new, here, after⟩ := late lineage middle there
  refine ⟨new, here, ?_⟩
  rcases before with less | ⟨same, hash⟩
  · exact .inl (less.trans_le (after.elim Nat.le_of_lt fun same => same.1.le))
  · rwa [same, hash]

/-! ### The chunk that completes a stream -/

section Completion

variable {primitives : VerifyPrimitives} {v : StreamVerifier} {admission : StreamAdmission}

def CompletesStream : Event → Prop
  | .chunk _ _ _ complete => complete ≠ none
  | _ => False

/-- A call whose event completes the stream only where the verifier is then at its end. -/
abbrev Finishes (call : StreamCall Event) (v : StreamVerifier) : Prop :=
  call.Permits v (fun event next => CompletesStream event → next.state.Finished) fun _ _ => True

theorem releaseChunk_finishes {i segId idx : Nat} {bytes : List UInt8} :
    Finishes (releaseChunk primitives.toPrimitives i segId idx bytes) v := by
  simp only [Finishes, releaseChunk, entryAt, segAt, permits_bind, permits_get, permits_orPanic,
    permits_pure, permits_modify]
  intro _ _ _ _ _ _
  refine permits_always (fun complete _ => permits_always (fun stage next completes => ?_)
    fun _ _ => trivial) fun _ _ => trivial
  cases complete with
  | none => exact absurd rfl completes
  | some status =>
    simp only [settle, StreamState.Finished]
    split <;> simp

theorem onChunk_finishes {frame : List UInt8} :
    Finishes (onChunk primitives.toPrimitives frame) v := by
  have again : ∀ i idx bytes, Finishes (onDuplicateChunk primitives.toPrimitives i idx bytes) v := by
    intro i idx bytes
    simp only [Finishes, onDuplicateChunk, entryAt, segAt, permits_bind, permits_get,
      permits_orPanic, permits_pure, permits_refuseIf, permits_ite, implies_true, true_and]
    refine fun _ _ _ _ _ _ _ => ⟨fun _ => ?_, fun _ => ?_⟩
    · exact permits_always (fun _ _ => False.elim) fun _ _ => trivial
    · exact permits_always (fun _ _ _ => permits_always (fun _ _ => False.elim) fun _ _ => trivial)
        fun _ _ => trivial
  simp only [Finishes, onChunk, segAt, u64At, u32At, permits_bind, permits_get, permits_orPanic,
    permits_refuseIf, permits_orRefuse, permits_ite, implies_true, true_and, and_true]
  refine fun _ _ _ _ _ _ _ _ _ _ _ _ => ⟨fun _ => again _ _ _, fun _ => ?_⟩
  exact permits_always (fun _ _ => releaseChunk_finishes) fun _ _ => trivial

theorem dispatch_finishes {frame : List UInt8} :
    Finishes (dispatch primitives.toPrimitives frame) v := by
  have table : Finishes (onTable primitives.toPrimitives frame) v := by
    simp [Finishes, onTable, segAt, entryAt, u64At, u32At, CompletesStream]
  have descriptor : Finishes (onDescriptorAgain primitives.toPrimitives frame) v := by
    simp only [Finishes, onDescriptorAgain, u32At, permits_bind, permits_orPanic, permits_refuseIf,
      permits_pure, implies_true, true_and]
    refine fun _ _ _ _ => permits_always (fun _ _ _ => ?_) fun _ _ => trivial
    exact permits_always (fun _ _ => False.elim) fun _ _ => trivial
  simp only [Finishes, dispatch, permits_ite, permits_refuse, implies_true, and_true]
  exact ⟨fun _ => onChunk_finishes, fun _ => ⟨fun _ => table, fun _ _ => descriptor⟩⟩

theorem onFirstFrame_finishes {frame : List UInt8} :
    Finishes (onFirstFrame primitives.toPrimitives frame) v := by
  simp only [Finishes, onFirstFrame, install, u32At, permits_bind, permits_orPanic,
    permits_refuseIf, permits_get, permits_attempt, implies_true, true_and]
  refine fun _ _ _ _ => permits_always (fun d _ => ?_) fun _ _ => permits_refuse.mpr trivial
  refine permits_always (fun _ _ => ?_) fun _ _ => trivial
  simp [CompletesStream]

theorem push_finishes (frame : List UInt8) :
    Finishes (Rvf.push primitives.toPrimitives frame) v := by
  have live : Finishes (do
      let event ← dispatch primitives.toPrimitives frame
      modify received
      return event) v := by
    simp only [Finishes, permits_bind, permits_modify, permits_pure]
    apply dispatch_finishes.weaken
    intro event next finishes completes
    have finished := finishes completes
    unfold received
    split
    · rename_i ready
      simp [StreamState.Finished, ready] at finished
    · exact finished
  simp only [Finishes, Rvf.push, permits_bind, permits_get]
  cases v.state with
  | awaitDescriptor => exact onFirstFrame_finishes
  | ready | receiving => exact live
  | _ => exact permits_throw.mpr trivial

def AdmissionCompletes : AdmissionEvent → Prop
  | .chunk _ _ _ _ _ complete => complete ≠ none
  | _ => False

abbrev KeepsVerifier {α : Type} (call : AdmissionCall α) (admission : StreamAdmission) : Prop :=
  call.Permits admission (fun _ next => next.verifier = admission.verifier) fun _ _ => True

theorem completeReport_keeps {complete : Option IdentityStatus} :
    KeepsVerifier (completeReport primitives complete) admission := by
  simp [KeepsVerifier, completeReport, finishReport, failingIf]

theorem onChecker_keeps {α : Type} {chunk : VerifiedChunk} {checker : SegmentChecker}
    {call : Call SegmentFault SegmentChecker α} :
    KeepsVerifier (onChecker chunk checker call) admission := by
  simp only [KeepsVerifier, onChecker, permits_bind, permits_orPanic]
  intro outcome _
  rcases outcome with ⟨_ | _, _⟩ <;> simp [failing]

theorem keepMeta_verifier (i : Nat) (checker : SegmentChecker) (payload : List UInt8) :
    (keepMeta i checker payload admission).verifier = admission.verifier := by
  unfold keepMeta
  split
  · split <;> rfl
  · rfl

theorem closeChecker_keeps {d : VerifiedDescriptor} {i : Nat} {chunk : VerifiedChunk}
    {checker : SegmentChecker} {segmentVerified : Bool} :
    KeepsVerifier (closeChecker primitives d i chunk checker segmentVerified) admission := by
  simp only [KeepsVerifier, closeChecker, permits_ite, permits_bind, permits_modify, permits_pure]
  refine ⟨fun _ => ?_, fun _ => trivial⟩
  apply onChecker_keeps.weaken
  intro _ _ same
  simp [same]

theorem admitSegment_keeps {d : VerifiedDescriptor} {i : Nat} {chunk : VerifiedChunk}
    {segmentVerified : Bool} {complete : Option IdentityStatus} :
    KeepsVerifier (admitSegment primitives d i chunk segmentVerified complete) admission := by
  have opens : KeepsVerifier (openChecker d i chunk) admission := by
    simp [KeepsVerifier, openChecker, failingIf]
  simp only [KeepsVerifier, admitSegment, permits_bind, permits_get, permits_orRefuse,
    permits_modify, permits_orPanic, permits_pure, implies_true, and_true]
  apply opens.weaken
  intro _ opened same checker _
  apply onChecker_keeps.weaken
  intro _ checked sameChecked payload _
  apply closeChecker_keeps.weaken
  intro _ closed sameClosed
  apply completeReport_keeps.weaken
  intro _ last sameLast
  rw [sameLast, sameClosed, keepMeta_verifier]
  exact sameChecked.trans same

theorem admitChunk_keeps {chunk : VerifiedChunk} {segmentVerified : Bool}
    {complete : Option IdentityStatus} :
    KeepsVerifier (admitChunk primitives chunk segmentVerified complete) admission := by
  have rootPage : KeepsVerifier (admitRootPage primitives chunk complete) admission := by
    have level0 : KeepsVerifier (checkLevel0Page chunk) admission := by
      simp [KeepsVerifier, checkLevel0Page, isLevel0Page, failingIf]
    simp only [KeepsVerifier, admitRootPage, permits_bind, permits_pure]
    apply level0.weaken
    intro _ checked same
    apply completeReport_keeps.weaken
    exact fun _ _ reported => reported.trans same
  simp only [KeepsVerifier, StreamAdmission.admitChunk, permits_bind, permits_get, permits_orPanic,
    permits_ite]
  exact fun _ _ _ _ => ⟨fun _ => rootPage, fun _ => admitSegment_keeps⟩

theorem admissionPush_finishes (frame : List UInt8) :
    (push primitives frame).Permits admission
      (fun event next => AdmissionCompletes event → next.state.Finished) fun _ _ => True := by
  simp only [StreamAdmission.push, permits_bind, permits_get]
  cases admission.failure with
  | some f => exact permits_throw.mpr trivial
  | none =>
    simp only [permits_bind, permits_translate, onVerifier, permits_onPart]
    apply (push_finishes frame).weaken
    intro event verifier finishes
    cases event with
    | chunk chunk segmentVerified stageVerified complete =>
      simp only [onEvent, permits_bind, permits_pure]
      apply admitChunk_keeps.weaken
      intro _ next same completes
      rw [StreamAdmission.state, same]
      exact finishes completes
    | _ => simp [StreamAdmission.onEvent, AdmissionCompletes]

end Completion

/-! ### Calls on a session -/

section Scenes

variable (Limits Validator Validated ModuleError : Type)

abbrev PinScene := SessionScene Limits Validator Validated ModuleError MemoryPins

end Scenes

variable {Limits Validator Validated ModuleError : Type} {N : Nat}

/-- The session of a call pinned its own descriptor, which nothing pinned superseded: it is
complete, its identity is verified, and it takes no more frames. -/
structure Pinned (pins : MemoryPins) (own : StreamSession Limits Validator Validated ModuleError)
    (d : VerifiedDescriptor) (next : MemoryPins) : Prop where
  complete : own.state = .complete
  verified : own.identityStatus = some .verified
  finished : own.admission.state.Finished
  installed : own.descriptor = some d
  recorded : own.pinRecorded = true
  newest : ∀ pin ∈ pins (d.header.signerKeyId, d.header.fileId), ¬Supersedes pin d
  moved : next = Function.update pins (d.header.signerKeyId, d.header.fileId) (some d.pin)

theorem Pinned.rises {pins next : MemoryPins} {d : VerifiedDescriptor}
    {own : StreamSession Limits Validator Validated ModuleError} (pinned : Pinned pins own d next) :
    Rises pins next := by
  rw [pinned.moved]
  intro lineage old held
  by_cases isOwn : lineage = (d.header.signerKeyId, d.header.fileId)
  · subst isOwn
    refine ⟨d.pin, by simp, ?_⟩
    have current := pinned.newest old held
    unfold Supersedes at current
    rcases Nat.lt_trichotomy old.epoch d.header.epoch with less | same | more
    · exact .inl less
    · exact .inr ⟨same, not_not.mp fun apart => current (.inr ⟨same.symm, apart⟩)⟩
    · exact absurd (.inl more) current
  · exact ⟨old, by simpa [isOwn] using held, .inr ⟨rfl, rfl⟩⟩

/-- A call leaves the pins alone, or its session pins its descriptor. -/
def Moved (here next : PinScene Limits Validator Validated ModuleError) : Prop :=
  next.pins = here.pins ∨ ∃ d, Pinned here.pins next.own d next.pins

theorem checkPoisoned_of_finished {own : StreamSession Limits Validator Validated ModuleError}
    (finished : own.admission.state.Finished) : own.checkPoisoned = own := by
  unfold StreamSession.checkPoisoned
  rcases finished with state | state <;> rw [state]

section Calls

variable {α : Type} {primitives : VerifyPrimitives}
  {validators : ModuleValidator Limits Validator Validated ModuleError}
  {here middle next : PinScene Limits Validator Validated ModuleError}
  {call : SessionCall Limits Validator Validated ModuleError MemoryPins α}

abbrev OnlyMoves (call : SessionCall Limits Validator Validated ModuleError MemoryPins α)
    (here : PinScene Limits Validator Validated ModuleError) : Prop :=
  call.Leaves here (Moved here)

/-- Every round of the compare-and-set checks the pin again. -/
theorem recordPin_moved {d : VerifiedDescriptor} (rounds : Nat)
    (complete : here.own.state = .complete) (verified : here.own.identityStatus = some .verified)
    (finished : here.own.admission.state.Finished) (installed : here.own.descriptor = some d) :
    OnlyMoves (recordPin memoryPinStore d rounds) here := by
  induction rounds generalizing here with
  | zero => exact permits_pure.mpr (.inl rfl)
  | succ rounds ih =>
    unfold recordPin
    simp only [permits_bind, permits_get]
    cases checked : pinCheck memoryPinStore here.own here.pins with
    | error reason =>
      simp only [rejectReplay, permits_refuse]
      exact .inl rfl
    | ok current =>
      simp only [permits_ite, permits_pure, permits_bind, permits_set]
      refine ⟨fun isStore => ⟨fun _ => .inl rfl, fun _ => ?_⟩, fun _ => .inl rfl⟩
      have newest : ¬here.own.Stale memoryPinStore here.pins := fun stale => by
        obtain ⟨reason, refused⟩ := pinCheck_stale stale
        rw [checked] at refused
        cases refused
      simp only [memoryPinStore]
      split
      · exact ⟨fun _ => .inl rfl, fun _ => ih complete verified finished installed⟩
      · refine ⟨fun _ => .inr ⟨d, complete, verified, finished, installed, rfl, ?_, rfl⟩,
          fun never => (never rfl).elim⟩
        exact fun pin pinned older => newest ⟨isStore, d, installed, pin, pinned, older⟩

theorem promote_moved (finished : here.own.admission.state.Finished) :
    OnlyMoves (promote memoryPinStore) here := by
  unfold promote
  simp only [permits_bind, permits_get, permits_ite, permits_pure]
  refine ⟨fun ready => ?_, fun _ => .inl rfl⟩
  cases installed : here.own.descriptor with
  | none => exact permits_pure.mpr (.inl rfl)
  | some d =>
    simp only [permits_bind]
    apply (recordPin_moved 4 ready.1 ready.2 finished installed).weaken
    intro _ middle moved
    simp only [permits_get, permits_ite, rejectReplay, permits_refuse, exposePackage, permits_bind,
      permits_set]
    rcases moved with same | ⟨d, pinned⟩
    · exact ⟨fun _ => .inl same, fun _ => .inl same⟩
    · refine ⟨fun unrecorded => ?_, fun _ => .inr ⟨d, { pinned with }⟩⟩
      cases pinned.recorded.symm.trans unrecorded.2

theorem onComplete_moved (finished : here.own.admission.state.Finished) :
    OnlyMoves (onComplete memoryPinStore) here := by
  unfold onComplete
  simp only [permits_bind, permits_get]
  cases here.own.admission.report.filter VerificationReport.ok with
  | none => exact permits_refuse.mpr (.inl rfl)
  | some report =>
    simp only [changeSession, permits_bind, permits_modify, permits_pure]
    exact promote_moved finished

/-- Neither the pins nor the admission change. -/
abbrev KeepsAdmission (call : SessionCall Limits Validator Validated ModuleError MemoryPins α)
    (here : PinScene Limits Validator Validated ModuleError) : Prop :=
  call.Permits here
    (fun _ next => next.pins = here.pins ∧ next.own.admission = here.own.admission)
    fun _ next => next.pins = here.pins

theorem feedChunk_keeps {chunk : VerifiedChunk} {payload : List UInt8} {segmentVerified : Bool} :
    KeepsAdmission (feedChunk primitives validators chunk payload segmentVerified) here := by
  simp [KeepsAdmission, feedChunk, feedModule, changeSession]

theorem after_moved {event : AdmissionEvent}
    (finishes : AdmissionCompletes event → here.own.admission.state.Finished) :
    OnlyMoves (after primitives memoryPinStore validators event) here := by
  cases event with
  | chunk =>
    simp only [after, afterChunk, permits_bind, permits_ite, permits_pure]
    apply feedChunk_keeps.mono
    · rintro _ middle ⟨pins, admission⟩
      refine ⟨fun completes => ?_, fun _ => .inl pins⟩
      have finished : middle.own.admission.state.Finished := by
        rw [admission]
        exact finishes (isSome_iff_ne_none.mp completes)
      have moves := onComplete_moved finished
      unfold OnlyMoves Moved at moves
      rwa [pins] at moves
    · exact fun _ _ pins => .inl pins
  | _ => exact permits_pure.mpr (.inl rfl)

theorem pushFrame_moved (frame : List UInt8) :
    OnlyMoves (pushFrame primitives memoryPinStore validators frame) here := by
  simp only [pushFrame, permits_bind, permits_get, permits_throwIf]
  refine ⟨fun _ => .inl rfl, fun _ => permits_onAdmission.mpr ?_⟩
  apply (admissionPush_finishes frame).mono
  · exact fun _ _ finishes => after_moved finishes
  · exact fun _ _ _ => .inl rfl

theorem poison_of_finished {admission : StreamAdmission} (finished : admission.state.Finished)
    (reason : StreamError) : (admission.poison reason).2 = admission := by
  have still : (admission.verifier.poison reason).2 = admission.verifier := by
    simp only [StreamVerifier.poison, StreamVerifier.poisonAt]
    rcases finished with state | state <;> rw [show admission.verifier.state = _ from state]
  simp [StreamAdmission.poison, still]

/-- Once its pin has moved, a session takes no more of the bytes it is fed. -/
theorem sessionTarget_moved : (sessionTarget primitives memoryPinStore validators).KeptBy
    (Moved here) where
  pushed middle frame result next moved ran := by
    rcases moved with same | ⟨d, pinned⟩
    · have after := pushFrame_moved frame result next ran
      unfold Moved at after
      rw [same] at after
      cases result <;> exact after
    · have refuses : (pushFrame primitives memoryPinStore validators frame).Permits middle
          (fun _ _ => False) fun _ after => after = middle := by
        simp only [pushFrame, permits_bind, permits_get, permits_throwIf, pinned.complete]
        exact ⟨fun _ => trivial, fun receiving => (receiving (by simp)).elim⟩
      have refused := refuses result next ran
      cases result with
      | ok => exact refused.elim
      | error =>
        rw [refused]
        exact .inr ⟨d, pinned⟩
  poisoned middle reason moved := by
    rcases moved with same | ⟨d, pinned⟩
    · exact .inl same
    · have still := poison_of_finished pinned.finished reason
      refine .inr ⟨d, ?_⟩
      simp only [sessionTarget, still]
      exact pinned

theorem feedBytes_moved (data : List UInt8) :
    OnlyMoves (feedBytes primitives memoryPinStore validators data) here := by
  simp only [feedBytes, changeSession, permits_bind, permits_get, permits_orPanic, permits_set,
    permits_modify, permits_orRefusal]
  intro outcome ran
  have start : Moved here { here with own.reader := .new } := .inl rfl
  have fed := @feedLoop_keeps _ _ _ _ _ ⟨here.own.reader, _, []⟩ sessionTarget_moved start _ data
    _ _ ran
  have kept : Moved here outcome.2.target := by
    obtain ⟨result, final⟩ := outcome
    cases result <;> exact fed
  rcases kept with same | ⟨d, pinned⟩
  · exact ⟨fun _ _ => .inl same, fun _ _ => .inl same⟩
  · have still := @checkPoisoned_of_finished _ _ _ _
      { outcome.2.target.own with reader := outcome.2.reader } pinned.finished
    simp only [still]
    exact ⟨fun _ _ => .inr ⟨d, { pinned with }⟩, fun _ _ => .inr ⟨d, { pinned with }⟩⟩

theorem confirmIdentity_moved (readAt : ReadAt) :
    OnlyMoves (confirmIdentity primitives memoryPinStore readAt) here := by
  simp only [confirmIdentity, changeSession, permits_bind, permits_modify]
  refine permits_onAdmission.mpr ?_
  simp only [StreamAdmission.finishIdentity, StreamAdmission.onVerifier, permits_bind,
    permits_onPart, permits_modify]
  apply finishIdentity_spec.mono
  · rintro _ _ ⟨_, _, rfl⟩
    apply promote_moved
    rw [checkPoisoned_of_finished (.inl rfl)]
    exact .inl rfl
  · exact fun _ _ _ => .inl rfl

theorem takeModule_moved (segId : Nat) :
    OnlyMoves (takeModule primitives memoryPinStore segId) here := by
  simp [takeModule, Moved]

end Calls

namespace SessionHub

variable {primitives : VerifyPrimitives}
  {validators : ModuleValidator Limits Validator Validated ModuleError}
  {here next start final : SessionHub Limits Validator Validated ModuleError MemoryPins}
  {label : HubRequest Limits N × HubReply Validated ModuleError}
  {history : List (HubRequest Limits N × HubReply Validated ModuleError)}

/-- After a call on session `i`, which pinned what is pinned anew. -/
def MovedBy (i : Nat) (here next : SessionHub Limits Validator Validated ModuleError MemoryPins) :
    Prop :=
  ∃ own ∈ next.sessions[i]?, ∃ d, Pinned here.pins own d next.pins

theorem onSession_moved {α : Type} {i : Nat} {reply : HubReply Validated ModuleError}
    {call : SessionCall Limits Validator Validated ModuleError MemoryPins α}
    {answer : Except (SessionError ModuleError) α → HubReply Validated ModuleError}
    (moves : ∀ scene, OnlyMoves call scene)
    (step : (here.onSession i call).map (Prod.map answer id) = some (reply, next)) :
    next.pins = here.pins ∨ MovedBy i here next := by
  obtain ⟨outcome, ran, same⟩ := map_eq_some_iff.mp step
  obtain ⟨_, rfl⟩ := Prod.mk.inj same
  obtain ⟨own, located, called⟩ := bind_eq_some_iff.mp ran
  obtain ⟨⟨result, scene⟩, made, same⟩ := bind_eq_some_iff.mp called
  obtain rfl := some.inj same
  have after : Moved ⟨own, here.pins⟩ scene := by
    have permitted := moves ⟨own, here.pins⟩ result scene made
    cases result <;> exact permitted
  refine after.imp_right fun pinned => ⟨scene.own, ?_, pinned⟩
  obtain ⟨within, _⟩ := List.getElem?_eq_some_iff.mp located
  simp [within]

theorem moved_step (step : Step primitives memoryPinStore validators here label next) :
    next.pins = here.pins ∨ ∃ i, label.1.session = some i ∧ MovedBy i here next := by
  have byCall : ∀ i, label.1.session = some i → next.pins = here.pins ∨ MovedBy i here next →
      next.pins = here.pins ∨ ∃ i, label.1.session = some i ∧ MovedBy i here next :=
    fun i named moved => moved.imp_right fun by_ => ⟨i, named, by_⟩
  obtain ⟨request, reply⟩ := label
  cases request with
  | start policy nowNs opts modulePolicy sessionId =>
    obtain ⟨_, rfl⟩ := Prod.mk.inj (some.inj step)
    exact .inl rfl
  | push i frame =>
    exact byCall i rfl (onSession_moved (fun _ => pushFrame_moved frame) step)
  | feed i data =>
    exact byCall i rfl (onSession_moved (fun _ => feedBytes_moved data) step)
  | finishIdentity i readAt =>
    exact byCall i rfl (onSession_moved (fun _ => confirmIdentity_moved readAt) step)
  | takeModule i segId =>
    exact byCall i rfl (onSession_moved (fun _ => takeModule_moved segId) step)
  | installCapabilities | takeObligation =>
    obtain ⟨_, _, same⟩ := map_eq_some_iff.mp step
    obtain ⟨_, rfl⟩ := Prod.mk.inj same
    exact .inl rfl

/-- However the calls on the sessions interleave, no pin moves back, and a call that moves one is
on a session which is complete and verified after it and pins its own descriptor. -/
theorem pinsOnlyRise (run : Run (Step primitives memoryPinStore validators) start history final) :
    Rises start.pins final.pins ∧
    ∀ first label rest here next, history = first ++ label :: rest →
      Run (Step primitives memoryPinStore validators) start first here →
      Step primitives memoryPinStore validators here label next → next.pins ≠ here.pins →
      ∃ i, label.1.session = some i ∧ MovedBy i here next := by
  constructor
  · induction run with
    | nil => exact fun _ old pinned => ⟨old, pinned, .inr ⟨rfl, rfl⟩⟩
    | snoc _ step risen =>
      rcases moved_step step with same | ⟨_, _, _, _, _, pinned⟩
      · rwa [same]
      · exact risen.trans pinned.rises
  · exact fun _ _ _ _ _ _ _ step moved => (moved_step step).resolve_left moved

end SessionHub

theorem pinsOnlyRise_sampleRun :
    ∃ (history : List (HubRequest Unit 4 × HubReply Unit Unit)) (hub : SampleHub),
    (∃ lineage, hub.pins lineage ≠ none) ∧ Rises (fun _ => none) hub.pins ∧
    ∀ first label rest here next, history = first ++ label :: rest →
      Run (SessionHub.Step samplePrimitives memoryPinStore sampleValidators)
        (SessionHub.new fun _ => none) first here →
      SessionHub.Step samplePrimitives memoryPinStore sampleValidators here label next →
      next.pins ≠ here.pins → ∃ i, label.1.session = some i ∧ SessionHub.MovedBy i here next := by
  obtain ⟨⟨history, hub⟩, performed, _, _, _, ⟨d, _, pin, found, _⟩, _⟩ := sampleRun_overtaken
  have moved : hub.pins (d.header.signerKeyId, d.header.fileId) = some pin := found
  exact ⟨history, hub, ⟨_, moved.trans_ne (some_ne_none pin)⟩,
    SessionHub.pinsOnlyRise (SessionHub.run_performAll performed).1⟩

end Rvm.Launch
