import Rvm.Launch.StreamSession

/-!
Owns streaming sessions that share one pin store, opened and called in any order, and when
a session holds a package: only while it is complete and its identity is verified, and then
the package of its report.
-/

namespace Rvm.Launch

open Foundation Foundation.Call Rvf StreamSession Option StreamPackage List

/-! ### Sessions over one store -/

/-- What `install_capabilities` is given: a table of `N` slots, which keeps its own
invariant, and how the capabilities are to be issued. -/
structure TableArgs (N : Nat) extends InstallArgs where
  inv : Cap.CapabilityTable.Inv N table

inductive HubRequest (Limits : Type) (N : Nat) where
  | start (policy : StreamPolicy) (nowNs : Option Nat) (opts : VerifyOptions)
      (modulePolicy : ModulePolicy Limits) (sessionId : Nat)
  | push (i : Nat) (frame : List UInt8)
  | feed (i : Nat) (data : List UInt8)
  | finishIdentity (i : Nat) (readAt : ReadAt)
  | takeModule (i : Nat) (segId : Nat)
  | installCapabilities (i : Nat) (args : TableArgs N)
  | takeObligation (i : Nat)

/-- What the call answers; `installed` shows the table after it. -/
inductive HubReply (Validated ModuleError : Type) where
  | started
  | pushed (result : Except (SessionError ModuleError) SessionEvent)
  | fed (result : Except (SessionError ModuleError) PUnit)
  | confirmed (result : Except (SessionError ModuleError) PUnit)
  | module (result : Except (SessionError ModuleError) (VerifiedModule Validated))
  | installed (result : Except (SessionError ModuleError) Nat) (table : Cap.CapabilityTable)
  | obligation (taken : Option PoisonObligation)

/-- The sessions and the store they share. -/
structure SessionHub (Limits Validator Validated ModuleError Pins : Type) where
  sessions : List (StreamSession Limits Validator Validated ModuleError)
  pins : Pins

namespace SessionHub

variable {Limits Validator Validated ModuleError Pins : Type} {N : Nat}

def new (pins : Pins) : SessionHub Limits Validator Validated ModuleError Pins := ⟨[], pins⟩

def onSession {α : Type} (hub : SessionHub Limits Validator Validated ModuleError Pins) (i : Nat)
    (call : SessionCall Limits Validator Validated ModuleError Pins α) :
    Option (Except (SessionError ModuleError) α ×
      SessionHub Limits Validator Validated ModuleError Pins) := do
  let own ← hub.sessions[i]?
  let (outcome, scene) ← call.runFrom ⟨own, hub.pins⟩
  return (outcome, ⟨hub.sessions.set i scene.own, scene.pins⟩)

section Perform

variable (primitives : VerifyPrimitives) (store : PinStore Pins)
  (validators : ModuleValidator Limits Validator Validated ModuleError)

/-- Perform a call; `none` is a panic, or a session that does not exist. -/
def perform (hub : SessionHub Limits Validator Validated ModuleError Pins) :
    HubRequest Limits N → Option (HubReply Validated ModuleError ×
      SessionHub Limits Validator Validated ModuleError Pins)
  | .start policy nowNs opts modulePolicy sessionId =>
    some (.started, { hub with
      sessions := hub.sessions ++
        [.withModulePolicy policy (.store nowNs) opts modulePolicy sessionId] })
  | .push i frame =>
    (hub.onSession i (pushFrame primitives store validators frame)).map
      (Prod.map .pushed id)
  | .feed i data =>
    (hub.onSession i (feedBytes primitives store validators data)).map (Prod.map .fed id)
  | .finishIdentity i readAt =>
    (hub.onSession i (confirmIdentity primitives store readAt)).map (Prod.map .confirmed id)
  | .takeModule i segId =>
    (hub.onSession i (takeModule primitives store segId)).map (Prod.map .module id)
  | .installCapabilities i args =>
    hub.sessions[i]?.map fun own =>
      let (result, table, next) := installCapabilities N args.toInstallArgs own
      (.installed result table, { hub with sessions := hub.sessions.set i next })
  | .takeObligation i =>
    hub.sessions[i]?.map fun own =>
      let (taken, next) := takeObligation own
      (.obligation taken, { hub with sessions := hub.sessions.set i next })

def performAll (hub : SessionHub Limits Validator Validated ModuleError Pins) :
    List (HubRequest Limits N) → Option (List (HubRequest Limits N × HubReply Validated ModuleError) ×
      SessionHub Limits Validator Validated ModuleError Pins)
  | [] => some ([], hub)
  | request :: rest => do
    let (reply, next) ← hub.perform primitives store validators request
    let (history, final) ← next.performAll rest
    return ((request, reply) :: history, final)

def Step (here : SessionHub Limits Validator Validated ModuleError Pins)
    (label : HubRequest Limits N × HubReply Validated ModuleError)
    (next : SessionHub Limits Validator Validated ModuleError Pins) : Prop :=
  here.perform primitives store validators label.1 = some (label.2, next)

end Perform

theorem run_performAll {primitives : VerifyPrimitives} {store : PinStore Pins}
    {validators : ModuleValidator Limits Validator Validated ModuleError}
    {hub final : SessionHub Limits Validator Validated ModuleError Pins}
    {requests : List (HubRequest Limits N)}
    {history : List (HubRequest Limits N × HubReply Validated ModuleError)}
    (performed : hub.performAll primitives store validators requests = some (history, final)) :
    Run (Step primitives store validators) hub history final ∧ history.map Prod.fst = requests := by
  induction requests generalizing hub history with
  | nil =>
    obtain ⟨rfl, rfl⟩ := Prod.mk.inj (some.inj performed)
    exact ⟨.nil, rfl⟩
  | cons request rest ih =>
    obtain ⟨⟨reply, next⟩, made, later⟩ := bind_eq_some_iff.mp performed
    obtain ⟨⟨tail, last⟩, followed, packed⟩ := bind_eq_some_iff.mp later
    obtain ⟨rfl, rfl⟩ := Prod.mk.inj (some.inj packed)
    obtain ⟨run, names⟩ := ih followed
    have step : Step primitives store validators hub (request, reply) next := made
    exact ⟨(Run.single step).append run, by rw [map_cons, names]⟩

end SessionHub

variable {Limits Validator Validated ModuleError Pins : Type}
  {session : StreamSession Limits Validator Validated ModuleError}

/-! ### The invariant of a session -/

variable (session) in
def StreamSession.Reports (package : StreamPackage) : Prop :=
  ∃ report, session.admission.report = some report ∧ fromReport report = .ok package

variable (session) in
structure StreamSession.Packaged : Prop where
  exposed : ∀ package, session.package = some package →
    session.state = .complete ∧ session.identityStatus = some .verified ∧ session.Reports package
  pending : ∀ package, session.pendingPackage = some package →
    session.state = .complete ∧ session.Reports package

variable (session) in
structure StreamSession.Empty : Prop where
  package : session.package = none
  pending : session.pendingPackage = none

namespace StreamSession

theorem Empty.packaged (empty : session.Empty) : session.Packaged where
  exposed _ held := by
    rw [empty.package] at held
    cases held
  pending _ held := by
    rw [empty.pending] at held
    cases held

theorem Packaged.empty (packaged : session.Packaged) (incomplete : session.state ≠ .complete) :
    session.Empty where
  package := by
    cases held : session.package with
    | none => rfl
    | some package => exact absurd (packaged.exposed package held).1 incomplete
  pending := by
    cases held : session.pendingPackage with
    | none => rfl
    | some package => exact absurd (packaged.pending package held).1 incomplete

theorem empty_fail (error : SessionError ModuleError) : (session.fail error).Empty := ⟨rfl, rfl⟩

theorem Packaged.checkPoisoned (packaged : session.Packaged) : session.checkPoisoned.Packaged := by
  unfold StreamSession.checkPoisoned
  split
  · exact Empty.packaged ⟨rfl, rfl⟩
  · exact packaged

theorem Empty.checkPoisoned (empty : session.Empty) : session.checkPoisoned.Empty := by
  unfold StreamSession.checkPoisoned
  split
  · exact ⟨rfl, rfl⟩
  · exact empty

theorem Packaged.keep {other : StreamSession Limits Validator Validated ModuleError}
    (packaged : session.Packaged) (package : other.package = session.package)
    (pendingPackage : other.pendingPackage = session.pendingPackage)
    (state : other.state = session.state) (report : other.admission.report = session.admission.report)
    (identityStatus : other.identityStatus = session.identityStatus) : other.Packaged where
  exposed held same := by
    unfold Reports
    rw [state, identityStatus, report]
    exact packaged.exposed held (package ▸ same)
  pending held same := by
    unfold Reports
    rw [state, report]
    exact packaged.pending held (pendingPackage ▸ same)

end StreamSession

theorem identityStatus_poisonAt (v : StreamVerifier) (reason : StreamError) (seg : Option Nat)
    (chunk : Nat) : (v.poisonAt reason seg chunk).identityStatus = v.identityStatus := by
  unfold StreamVerifier.poisonAt
  split <;> rfl

theorem toOption_eq_some {ε α : Type} {result : Except ε α} {value : α} :
    result.toOption = some value ↔ result = .ok value := by
  cases result <;> simp [Except.toOption]

/-! ### Calls -/

section Calls

variable {primitives : VerifyPrimitives} {store : PinStore Pins}
  {validators : ModuleValidator Limits Validator Validated ModuleError}
  {here : SessionScene Limits Validator Validated ModuleError Pins}

theorem permits_onAdmission {ε α : Type} {reasonOf : ε → AdmissionError}
    {call : Call ε StreamAdmission α}
    {Returned : α → SessionScene Limits Validator Validated ModuleError Pins → Prop}
    {Refused : SessionError ModuleError →
      SessionScene Limits Validator Validated ModuleError Pins → Prop} :
    (onAdmission store reasonOf call).Permits here Returned Refused ↔
      call.Permits (here.own.lend (here.own.replay.over store here.pins)).admission
        (fun value admission => Returned value
          { here with own := { here.own with admission := admission } })
        fun reason admission => Refused (.stream (reasonOf reason))
          { here with
            own := ({ here.own with admission := admission } :
              StreamSession _ _ _ _).checkPoisoned } := by
  simp only [onAdmission, permits_bind, permits_get, permits_orPanic, permits_set]
  constructor
  · rintro permits (reason | value) admission ran
    · exact permits (.error reason, admission) ran _ _ rfl
    · exact permits (.ok value, admission) ran _ _ rfl
  · rintro permits ⟨reason | value, admission⟩ ran
    · rintro _ _ ⟨⟩
      exact permits _ _ ran
    · rintro _ _ ⟨⟩
      exact permits _ _ ran

theorem recordPin_packaged (d : VerifiedDescriptor) (rounds : Nat) (packaged : here.own.Packaged) :
    (recordPin store d rounds).Permits here
      (fun _ next => next.own.Packaged ∧ next.own.state = here.own.state ∧
        next.own.identityStatus = here.own.identityStatus)
      fun _ next => next.own.Packaged := by
  induction rounds generalizing here with
  | zero =>
    simp only [recordPin, permits_pure]
    exact ⟨packaged, trivial, trivial⟩
  | succ rounds ih =>
    unfold recordPin
    simp only [permits_bind, permits_get]
    cases pinCheck store here.own here.pins with
    | error reason =>
      simp only [rejectReplay, permits_refuse]
      exact (empty_fail _).packaged
    | ok current =>
      simp only [permits_ite, permits_pure, permits_bind, permits_set]
      refine ⟨fun _ => ⟨fun _ => ⟨packaged, trivial, trivial⟩, fun _ => ⟨fun _ => ?_, fun _ => ?_⟩⟩,
        fun _ => ⟨packaged, trivial, trivial⟩⟩
      · exact ⟨packaged.keep rfl rfl rfl rfl rfl, trivial, rfl⟩
      · exact ih (packaged.keep rfl rfl rfl rfl rfl)

theorem exposePackage_packaged (packaged : here.own.Packaged) (complete : here.own.state = .complete)
    (verified : here.own.identityStatus = some .verified) :
    Call.Leaves exposePackage here fun next => next.own.Packaged := by
  simp only [exposePackage, permits_bind, permits_get, permits_set]
  refine ⟨fun package held => ⟨complete, verified, ?_⟩, fun package held => by cases held⟩
  rcases or_eq_some_iff.mp held with pending | ⟨_, exposed⟩
  · split at pending
    · obtain ⟨report, found, made⟩ := bind_eq_some_iff.mp pending
      exact ⟨report, found, toOption_eq_some.mp made⟩
    · exact (packaged.pending package pending).2
  · exact (packaged.exposed package exposed).2.2

theorem promote_packaged (packaged : here.own.Packaged) :
    (promote store).Leaves here fun next => next.own.Packaged := by
  unfold promote
  simp only [permits_bind, permits_get, permits_ite, permits_pure]
  refine ⟨fun ready => ?_, fun _ => packaged⟩
  cases here.own.descriptor with
  | none =>
    simp only [permits_pure]
    exact packaged
  | some d =>
    simp only [permits_bind]
    apply (recordPin_packaged d 4 packaged).weaken
    rintro _ middle ⟨recorded, state, identityStatus⟩
    simp only [permits_get, permits_ite, rejectReplay, permits_refuse]
    exact ⟨fun _ => (empty_fail _).packaged, fun _ => exposePackage_packaged recorded
      (state.trans ready.1) (identityStatus.trans ready.2)⟩

variable {payload : List UInt8} {segmentVerified : Bool}

theorem feedModule_empty {segId : Nat} (empty : here.own.Empty) :
    (feedModule primitives validators segId payload segmentVerified).Permits here
      (fun _ next => next.own.Empty) fun _ _ => True := by
  simp only [feedModule, changeSession, permits_bind, permits_get, permits_orRefusal, permits_ite,
    permits_modify]
  have changed : ∀ exec ready, ({ here.own with exec := exec, ready := ready } :
      StreamSession _ Validator Validated _).Empty := fun _ _ => ⟨empty.package, empty.pending⟩
  exact ⟨fun _ _ => ⟨fun _ _ => ⟨fun _ => ⟨fun _ _ => changed _ _, fun _ _ => trivial⟩,
    fun _ => changed _ _⟩, fun _ _ => trivial⟩, fun _ _ => trivial⟩

theorem onComplete_packaged (empty : here.own.Empty) :
    (onComplete store).Leaves here fun next => next.own.Packaged := by
  unfold onComplete
  simp only [permits_bind, permits_get]
  cases passed : here.own.admission.report.filter VerificationReport.ok with
  | none =>
    simp only [permits_refuse]
    exact (empty_fail _).packaged
  | some report =>
    have found := (filter_eq_some_iff.mp passed).1
    simp only [changeSession, permits_bind, permits_modify, permits_pure]
    refine promote_packaged ⟨fun package held => ?_, fun package held => ⟨rfl, report, found, ?_⟩⟩
    · rw [empty.package] at held
      cases held
    · exact toOption_eq_some.mp held

theorem feedChunk_empty {chunk : VerifiedChunk} (empty : here.own.Empty) :
    (feedChunk primitives validators chunk payload segmentVerified).Permits here
      (fun _ next => next.own.Empty) fun _ next => next.own.Empty := by
  simp only [feedChunk, permits_ite, permits_pure, permits_bind, permits_attempt]
  refine ⟨fun _ => ?_, fun _ => empty⟩
  apply (feedModule_empty empty).mono
  · exact fun _ _ still => still
  · exact fun _ _ _ => permits_refuse.mpr (empty_fail _)

theorem afterChunk_packaged {chunk : VerifiedChunk} {stageVerified : Option Nat}
    {complete : Option IdentityStatus} (empty : here.own.Empty) :
    (afterChunk primitives store validators chunk payload segmentVerified stageVerified
      complete).Leaves here fun next => next.own.Packaged := by
  simp only [afterChunk, permits_bind, permits_ite, permits_pure]
  apply (feedChunk_empty empty).mono
  · exact fun _ middle still => ⟨fun _ => onComplete_packaged still, fun _ => still.packaged⟩
  · exact fun _ _ still => still.packaged

theorem after_packaged {event : AdmissionEvent} (empty : here.own.Empty) :
    (after primitives store validators event).Leaves here fun next => next.own.Packaged := by
  cases event with
  | chunk => exact afterChunk_packaged empty
  | _ => exact permits_pure.mpr empty.packaged

variable (primitives store validators) in
theorem pushFrame_packaged (packaged : here.own.Packaged) (frame : List UInt8) :
    (pushFrame primitives store validators frame).Leaves here fun next => next.own.Packaged := by
  simp only [pushFrame, permits_bind, permits_get, permits_throwIf]
  refine ⟨fun _ => packaged, fun receiving => permits_onAdmission.mpr ?_⟩
  have state : here.own.state = .receiving := by simpa using receiving
  have empty := packaged.empty (by simp [state])
  have still : ∀ admission, ({ here.own with admission := admission } :
      StreamSession _ _ _ _).Empty := fun _ => ⟨empty.package, empty.pending⟩
  intro outcome admission _
  cases outcome with
  | ok event => exact after_packaged (still admission)
  | error reason => exact (still admission).checkPoisoned.packaged

theorem sessionTarget_packaged : (sessionTarget primitives store validators).KeptBy
    fun here : SessionScene Limits Validator Validated ModuleError Pins => here.own.Packaged where
  pushed here frame result next packaged ran := by
    have after := pushFrame_packaged primitives store validators packaged frame result next ran
    cases result <;> exact after
  poisoned here reason packaged :=
    packaged.keep rfl rfl rfl rfl (identityStatus_poisonAt _ _ _ _)

theorem feedBytes_packaged (packaged : here.own.Packaged) (data : List UInt8) :
    (feedBytes primitives store validators data).Leaves here fun next => next.own.Packaged := by
  simp only [feedBytes, changeSession, permits_bind, permits_get, permits_orPanic, permits_set,
    permits_modify, permits_orRefusal]
  intro outcome ran
  have start : ({ here.own with reader := .new } : StreamSession _ _ _ _).Packaged :=
    packaged.keep rfl rfl rfl rfl rfl
  have fed := @feedLoop_keeps _ _ _ _ _ ⟨here.own.reader, { here with own.reader := .new }, []⟩
    sessionTarget_packaged start _ data _ _ ran
  have kept : outcome.2.target.own.Packaged := by
    obtain ⟨result, final⟩ := outcome
    cases result <;> exact fed
  have final := StreamSession.Packaged.checkPoisoned
    (kept.keep rfl rfl rfl rfl rfl : ({ outcome.2.target.own with reader := outcome.2.reader } :
      StreamSession _ _ _ _).Packaged)
  exact ⟨fun _ _ => final, fun _ _ => final⟩

theorem admission_finishIdentity_spec (readAt : ReadAt) {admission : StreamAdmission} :
    (StreamAdmission.finishIdentity primitives readAt).Permits admission
      (fun _ next => next.verifier.identityStatus = some .verified ∧
        next.report = admission.report.map fun report => { report with identityConfirmed := true })
      fun _ next => next.verifier.identityStatus = admission.verifier.identityStatus ∧
        next.report = admission.report := by
  simp only [StreamAdmission.finishIdentity, StreamAdmission.onVerifier, permits_bind,
    permits_onPart, permits_modify]
  apply finishIdentity_spec.mono
  · rintro _ _ ⟨_, _, rfl⟩
    exact ⟨rfl, trivial⟩
  · rintro _ _ (rfl | ⟨_, _, _, rfl⟩)
    · exact ⟨rfl, trivial⟩
    · exact ⟨rfl, trivial⟩

theorem StreamPackage.fromReport_confirmed {report : VerificationReport} {package : StreamPackage}
    (made : fromReport report = .ok package) :
    { report with identityConfirmed := true } = report := by
  unfold fromReport at made
  split at made
  · cases made
  · split at made
    · cases made
    · rename_i confirmed
      rw [← eq_true_of_ne_false confirmed]

theorem confirmIdentity_packaged (packaged : here.own.Packaged) (readAt : ReadAt) :
    (confirmIdentity primitives store readAt).Leaves here fun next => next.own.Packaged := by
  simp only [confirmIdentity, changeSession, permits_bind, permits_modify]
  refine permits_onAdmission.mpr ?_
  apply (admission_finishIdentity_spec readAt).mono
  · rintro _ admission ⟨verified, told⟩
    apply promote_packaged
    apply StreamSession.Packaged.checkPoisoned
    have confirmed : ∀ package, here.own.Reports package →
        ({ here.own with admission := admission } : StreamSession _ _ _ _).Reports package := by
      rintro package ⟨report, found, made⟩
      refine ⟨report, ?_, made⟩
      have lent : admission.report =
          here.own.admission.report.map fun report => { report with identityConfirmed := true } :=
        told
      rw [lent, found, map_some, fromReport_confirmed made]
    refine ⟨fun package held => ?_, fun package held => ?_⟩
    · obtain ⟨complete, _, reports⟩ := packaged.exposed package held
      exact ⟨complete, verified, confirmed package reports⟩
    · obtain ⟨complete, reports⟩ := packaged.pending package held
      exact ⟨complete, confirmed package reports⟩
  · rintro _ admission ⟨status, report⟩
    apply StreamSession.Packaged.checkPoisoned
    exact packaged.keep rfl rfl rfl report status

theorem takeModule_packaged (packaged : here.own.Packaged) (segId : Nat) :
    (takeModule primitives store segId).Leaves here fun next => next.own.Packaged := by
  simp only [takeModule, permits_bind, permits_get, permits_orRefusal, permits_set]
  have taken : ∀ ready, ({ here.own with ready := ready } :
      StreamSession _ _ Validated _).Packaged := fun _ => packaged.keep rfl rfl rfl rfl rfl
  exact ⟨fun _ _ => ⟨fun _ _ => ⟨fun _ _ => taken _, fun _ _ => taken _⟩, fun _ _ => packaged⟩,
    fun _ _ => packaged⟩

theorem installCapabilities_packaged (packaged : session.Packaged) (N : Nat) (args : InstallArgs) :
    (installCapabilities N args session).2.2.Packaged := by
  unfold installCapabilities
  split
  · exact packaged
  · split
    · exact packaged
    · split
      · exact packaged
      · exact packaged.keep rfl rfl rfl rfl rfl

theorem takeObligation_packaged (packaged : session.Packaged) :
    (takeObligation session).2.Packaged := by
  unfold takeObligation
  dsimp only
  split
  · exact packaged
  · exact packaged.keep rfl rfl rfl rfl rfl

end Calls

/-! ### Runs -/

namespace SessionHub

variable {primitives : VerifyPrimitives} {store : PinStore Pins}
  {validators : ModuleValidator Limits Validator Validated ModuleError} {N : Nat}
  {here next hub : SessionHub Limits Validator Validated ModuleError Pins}
  {label : HubRequest Limits N × HubReply Validated ModuleError}

def Packaged (hub : SessionHub Limits Validator Validated ModuleError Pins) : Prop :=
  ∀ session ∈ hub.sessions, session.Packaged

theorem Packaged.set (packaged : here.Packaged) (own : session.Packaged) (i : Nat) (pins : Pins) :
    Packaged ⟨here.sessions.set i session, pins⟩ := by
  intro other member
  rcases mem_or_eq_of_mem_set member with old | rfl
  · exact packaged other old
  · exact own

theorem Packaged.onSession {α : Type} (packaged : here.Packaged) {i : Nat}
    {reply : HubReply Validated ModuleError}
    {call : SessionCall Limits Validator Validated ModuleError Pins α}
    {answer : Except (SessionError ModuleError) α → HubReply Validated ModuleError}
    (keeps : ∀ scene : SessionScene Limits Validator Validated ModuleError Pins,
      scene.own.Packaged → call.Leaves scene fun next => next.own.Packaged)
    (step : (here.onSession i call).map (Prod.map answer id) = some (reply, next)) :
    next.Packaged := by
  obtain ⟨outcome, ran, same⟩ := map_eq_some_iff.mp step
  obtain ⟨_, rfl⟩ := Prod.mk.inj same
  obtain ⟨session, located, called⟩ := bind_eq_some_iff.mp ran
  obtain ⟨⟨result, scene⟩, made, same⟩ := bind_eq_some_iff.mp called
  obtain rfl := some.inj same
  have after := keeps ⟨session, here.pins⟩ (packaged session (mem_of_getElem? located))
    result scene made
  apply packaged.set
  cases result <;> exact after

theorem packaged_step (packaged : here.Packaged)
    (step : Step primitives store validators here label next) : next.Packaged := by
  obtain ⟨request, reply⟩ := label
  cases request with
  | start policy nowNs opts modulePolicy sessionId =>
    obtain ⟨_, rfl⟩ := Prod.mk.inj (some.inj step)
    intro session member
    rcases mem_append.mp member with old | new'
    · exact packaged session old
    · rw [mem_singleton.mp new']
      exact Empty.packaged ⟨rfl, rfl⟩
  | push i frame => exact packaged.onSession (fun _ own => pushFrame_packaged _ _ _ own frame) step
  | feed i data => exact packaged.onSession (fun _ own => feedBytes_packaged own data) step
  | finishIdentity i readAt =>
    exact packaged.onSession (fun _ own => confirmIdentity_packaged own readAt) step
  | takeModule i segId => exact packaged.onSession (fun _ own => takeModule_packaged own segId) step
  | installCapabilities i args =>
    obtain ⟨session, located, same⟩ := map_eq_some_iff.mp step
    obtain ⟨_, rfl⟩ := Prod.mk.inj same
    exact packaged.set (installCapabilities_packaged
      (packaged session (mem_of_getElem? located)) N _) i _
  | takeObligation i =>
    obtain ⟨session, located, same⟩ := map_eq_some_iff.mp step
    obtain ⟨_, rfl⟩ := Prod.mk.inj same
    exact packaged.set (takeObligation_packaged
      (packaged session (mem_of_getElem? located))) i _

theorem packaged_of_run {pins : Pins}
    {history : List (HubRequest Limits N × HubReply Validated ModuleError)}
    (run : Run (Step primitives store validators) (new pins) history hub) : hub.Packaged :=
  run.stateInvariant (fun _ member => (not_mem_nil member).elim)
    fun _ _ _ packaged step => packaged_step packaged step

end SessionHub

end Rvm.Launch
