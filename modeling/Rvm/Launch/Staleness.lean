import Rvm.Launch.StreamPackages
import Rvm.Rvf.Stream.Release

/-!
Owns what a stale session can still be used for: a session is stale while the store it
shares holds a newer pin of its lineage, or the pin of another descriptor of the same
epoch. A module is refused then; capabilities are not.
-/

namespace Rvm.Launch

open Foundation Foundation.Call Rvf Cap Option

variable {Limits Validator Validated ModuleError Pins : Type} {N : Nat}

def Supersedes (pin : EpochPin) (d : VerifiedDescriptor) : Prop :=
  d.header.epoch < pin.epoch ∨
    d.header.epoch = pin.epoch ∧ pin.descriptorHash ≠ d.descriptorHash

def StreamSession.Stale (store : PinStore Pins) (pins : Pins)
    (session : StreamSession Limits Validator Validated ModuleError) : Prop :=
  session.replay.isStore = true ∧ ∃ d, session.descriptor = some d ∧
    ∃ pin, store.lookup pins d.header.signerKeyId d.header.fileId = some pin ∧ Supersedes pin d

def StreamSession.Installs (args : TableArgs N)
    (session : StreamSession Limits Validator Validated ModuleError) : Prop :=
  ∃ package, session.package = some package ∧
    package.capabilities.granted.length ≤ (freeSlots N args.table).card

def HubRequest.session : HubRequest Limits N → Option Nat
  | .start .. => none
  | .push i _ | .feed i _ | .finishIdentity i _ | .takeModule i _ | .installCapabilities i _
  | .takeObligation i => some i

def GainsNothing (request : HubRequest Limits N) : HubReply Validated ModuleError → Prop
  | .module result => ∃ error, result = .error error
  | .installed result table => (∃ error, result = .error error) ∧
      ∀ i args, request = .installCapabilities i args → SameCapabilities args.table table
  | _ => True

section Calls

variable {primitives : VerifyPrimitives} {store : PinStore Pins} {pins : Pins}
  {session : StreamSession Limits Validator Validated ModuleError}

theorem pinCheck_stale (stale : session.Stale store pins) :
    ∃ reason, pinCheck store session pins = .error reason := by
  obtain ⟨isStore, d, installed, pin, found, supersedes⟩ := stale
  have pinned : (session.replay.over store pins).pinOf d.header.signerKeyId d.header.fileId =
      some pin := by
    cases replay : session.replay with
    | store nowNs => exact found
    | unpinned | lookup _ _ =>
      rw [replay] at isStore
      cases isStore
  simp only [pinCheck, installed, pinned]
  split
  · exact ⟨_, rfl⟩
  · rename_i notOlder
    have twin := supersedes.resolve_left notOlder
    rw [if_pos twin]
    exact ⟨_, rfl⟩

variable (primitives) in
theorem takeModule_stale (stale : session.Stale store pins) (segId : Nat) :
    ∃ error, (takeModule primitives store segId).runFrom ⟨session, pins⟩ =
      some (.error error, ⟨session, pins⟩) := by
  obtain ⟨reason, refused⟩ := pinCheck_stale stale
  have spec : (takeModule primitives store segId).Ensures
      (⟨session, pins⟩ : SessionScene Limits Validator Validated ModuleError Pins)
      (fun _ _ => False) fun _ next => next = ⟨session, pins⟩ := by
    simp only [takeModule, ensures_bind, ensures_get, ensures_orRefusal, refused, Except.mapError]
    refine ⟨fun _ _ => ⟨fun _ accepted => ?_, fun _ _ => trivial⟩, fun _ _ => trivial⟩
    cases accepted
  rcases spec.outcome with ⟨_, _, _, impossible⟩ | ⟨error, _, outcome, rfl⟩
  · exact impossible.elim
  · exact ⟨error, outcome⟩

theorem finishedCheck_packaged (packaged : session.Packaged) {package : StreamPackage}
    (held : session.package = some package) : session.finishedCheck = .ok () := by
  obtain ⟨complete, verified, _⟩ := packaged.exposed package held
  simp [StreamSession.finishedCheck, complete, verified]

/-- An installation hands nothing over exactly where the session does not hold a package
that the table has room for; whether it is stale is not asked. -/
theorem installCapabilities_gains (capacity : N ≤ u32Max) (packaged : session.Packaged)
    (args : TableArgs N) :
    ((∃ error, (installCapabilities N args.toInstallArgs session).1 = .error error) ∧
      SameCapabilities args.table (installCapabilities N args.toInstallArgs session).2.1) ↔
    ¬session.Installs args := by
  have untouched : SameCapabilities args.table args.table := fun _ => .inl rfl
  unfold installCapabilities StreamSession.Installs
  cases held : session.package with
  | none => cases session.finishedCheck <;> simp [untouched]
  | some package =>
    obtain ⟨room, kept⟩ := package.capabilities.installTracked_spec
      args.owner args.epoch args.firstCapId capacity args.inv
    simp only [finishedCheck_packaged packaged held, Option.some.injEq, exists_eq_left', ← room]
    rcases outcome : package.capabilities.installTracked N args.owner args.epoch
      args.firstCapId args.table with ⟨error | handles, table⟩
    · rw [outcome] at kept
      simpa using kept error rfl
    · simp

end Calls

namespace SessionHub

variable {primitives : VerifyPrimitives} {store : PinStore Pins}
  {validators : ModuleValidator Limits Validator Validated ModuleError}
  {here next hub : SessionHub Limits Validator Validated ModuleError Pins}
  {label : HubRequest Limits N × HubReply Validated ModuleError}

def StaleAt (store : PinStore Pins) (hub : SessionHub Limits Validator Validated ModuleError Pins)
    (i : Nat) : Prop :=
  ∃ session, hub.sessions[i]? = some session ∧ session.Stale store hub.pins

def InstallsStale (store : PinStore Pins)
    (hub : SessionHub Limits Validator Validated ModuleError Pins) (request : HubRequest Limits N) :
    Prop :=
  ∃ i args session, request = .installCapabilities i args ∧ hub.sessions[i]? = some session ∧
    session.Stale store hub.pins ∧ session.Installs args

/-- One call on a stale session hands something over exactly where it installs the
session's package. -/
theorem gainsNothing_step (capacity : N ≤ u32Max) (packaged : here.Packaged)
    (step : Step primitives store validators here label next) {i : Nat}
    (made : label.1.session = some i) (stale : here.StaleAt store i) :
    GainsNothing label.1 label.2 ↔ ¬here.InstallsStale store label.1 := by
  obtain ⟨request, reply⟩ := label
  obtain ⟨session, located, isStale⟩ := stale
  have other : (∀ i args, request ≠ .installCapabilities i args) →
      ¬here.InstallsStale store request := by
    rintro different ⟨j, args, _, same, _⟩
    exact different j args same
  cases request with
  | start => cases made
  | push j frame | feed j data | finishIdentity j readAt | takeObligation j =>
    obtain ⟨_, _, same⟩ := map_eq_some_iff.mp step
    obtain ⟨rfl, _⟩ := Prod.mk.inj same
    exact iff_of_true trivial (other nofun)
  | takeModule j segId =>
    obtain rfl : j = i := some.inj made
    obtain ⟨error, outcome⟩ := takeModule_stale primitives isStale segId
    simp only [Step, perform, onSession, located, outcome, bind_eq_bind,
      bind_some, pure_def, map_some, Prod.map] at step
    obtain ⟨rfl, _⟩ := Prod.mk.inj (some.inj step)
    exact iff_of_true ⟨error, rfl⟩ (other nofun)
  | installCapabilities j args =>
    obtain rfl : j = i := some.inj made
    simp only [Step, perform, located, map_some] at step
    obtain ⟨rfl, _⟩ := Prod.mk.inj (some.inj step)
    have gains := installCapabilities_gains capacity
      (packaged session (List.mem_of_getElem? located)) args
    constructor
    · rintro ⟨failed, same⟩ ⟨k, others, found, equal, there, _, installs⟩
      obtain ⟨rfl, rfl⟩ := HubRequest.installCapabilities.inj equal
      obtain rfl := some.inj (located.symm.trans there)
      exact gains.mp ⟨failed, same _ _ rfl⟩ installs
    · intro blocked
      obtain ⟨failed, same⟩ := gains.mpr fun installs =>
        blocked ⟨_, args, session, rfl, located, isStale, installs⟩
      refine ⟨failed, fun k others equal => ?_⟩
      obtain ⟨_, rfl⟩ := HubRequest.installCapabilities.inj equal
      exact same

variable (primitives validators) in
theorem perform_answers {i : Nat} (stale : hub.StaleAt store i) {request : HubRequest Limits N}
    (asked : (∃ segId, request = .takeModule i segId) ∨
      ∃ args, request = .installCapabilities i args) :
    hub.perform primitives store validators request ≠ none := by
  obtain ⟨session, located, isStale⟩ := stale
  rcases asked with ⟨segId, rfl⟩ | ⟨args, rfl⟩
  · obtain ⟨error, outcome⟩ := takeModule_stale primitives isStale segId
    simp [perform, onSession, located, outcome]
  · simp [perform, located]

/-- The calls on stale sessions hand nothing over exactly where none of them installs a package
that its session still holds. -/
theorem staleSessionsGainNothing (capacity : N ≤ u32Max) (pins : Pins)
    (history : List (HubRequest Limits N × HubReply Validated ModuleError)) :
    ((∀ first label rest here next, history = first ++ label :: rest →
        Run (Step primitives store validators) (new pins) first here →
        Step primitives store validators here label next →
        ∀ i, label.1.session = some i → here.StaleAt store i → GainsNothing label.1 label.2) ↔
      ∀ first label rest here next, history = first ++ label :: rest →
        Run (Step primitives store validators) (new pins) first here →
        Step primitives store validators here label next → ¬here.InstallsStale store label.1) ∧
    ∀ hub, Run (Step primitives store validators) (new pins) history hub →
      ∀ i, hub.StaleAt store i → ∀ request : HubRequest Limits N,
        (∃ segId, request = .takeModule i segId) ∨
          (∃ args, request = .installCapabilities i args) →
        hub.perform primitives store validators request ≠ none := by
  refine ⟨⟨fun nothing => ?_, fun never => ?_⟩, fun _ _ i stale request => perform_answers _ _ stale⟩
  · intro first label rest here next split before step installs
    obtain ⟨i, args, session, called, located, stale, _⟩ := id installs
    have made : label.1.session = some i := by rw [called]; rfl
    have staleAt : here.StaleAt store i := ⟨session, located, stale⟩
    have gains := nothing first label rest here next split before step i made staleAt
    exact (gainsNothing_step capacity (packaged_of_run before) step made staleAt).mp gains installs
  · intro first label rest here next split before step i made stale
    have blocked := never first label rest here next split before step
    exact (gainsNothing_step capacity (packaged_of_run before) step made stale).mpr blocked

end SessionHub

def samplePrimitives : VerifyPrimitives :=
  { Rvf.samplePrimitives with
    xxh3 := fun _ => Octets.zero 16
    shake256 := fun _ => Octets.zero 16 }

def sampleHeader (segType : UInt8) (segmentId payloadLength : Nat) : SegmentHeader where
  magic := segmentMagicBytes
  version := 1
  segType := segType
  flags := 0
  segmentId := segmentId
  payloadLength := payloadLength
  timestampNs := 0
  checksumAlgo := 2
  compression := 0
  reserved0 := 0
  reserved1 := 0
  contentHash := Octets.zero 16
  uncompressedLen := 0
  alignmentPad := 0

def sampleDeclaration : List UInt8 := utf8 "rvf.capabilities=clock".toList

def sampleMetadata : List UInt8 :=
  (sampleHeader segTypeMeta 1 sampleDeclaration.length).toBytes ++ sampleDeclaration ++
    List.replicate 42 0

def sampleManifest : List UInt8 := (sampleHeader segTypeManifest 2 0).toBytes

def sampleRow (segId : Nat) (segType : UInt8) (bodyOffset : Nat) (bytes : List UInt8) :
    List UInt8 :=
  littleEndianBytes 8 segId ++ [segType, 0] ++ List.replicate 6 0 ++
    littleEndianBytes 8 bodyOffset ++ littleEndianBytes 8 bytes.length ++ littleEndianBytes 8 0 ++
    (samplePrimitives.leafHash (List.Vector.replicate 16 3) segId 0 bytes).toList

def sampleDescriptor (epoch : Nat) : List UInt8 :=
  Rvf.magic ++ littleEndianBytes 2 version ++ littleEndianBytes 2 2 ++ [1, 0xFF] ++
    List.replicate 6 0 ++ List.replicate 16 3 ++ littleEndianBytes 8 epoch ++
    littleEndianBytes 8 192 ++ (samplePrimitives.sha256 (sampleMetadata ++ sampleManifest)).toList ++
    List.replicate 32 5 ++ littleEndianBytes 4 2 ++ littleEndianBytes 4 144 ++
    littleEndianBytes 8 0 ++ (samplePrimitives.signerKeyId sampleKey).toList ++
    List.replicate 8 0 ++ sampleRow 1 segTypeMeta 0 sampleMetadata ++
    sampleRow 2 segTypeManifest 128 sampleManifest ++ littleEndianBytes 2 64 ++
    sampleKey.toList ++ sampleKey.toList

def sampleValidators : ModuleValidator Unit Unit Unit Unit where
  new _ := ()
  push _ _ := (.ok (), ())
  finish _ := .ok ()

def sampleOptions : VerifyOptions where
  trustedKeys := []
  allowUnsignedExecutable := false
  expectedIdentity := none
  sizePolicy := .failClosed
  permitBufferedStreamProfile := false
  requirePinnedIdentity := false

/-- Session `i` receives a whole stream. -/
def sampleSession (i epoch : Nat) : List (HubRequest Unit 4) :=
  [.start (.new [sampleKey] .unpinned) none sampleOptions ⟨0, 0, ()⟩ i,
    .push i (descriptorFrame (sampleDescriptor epoch)),
    .push i (chunkFrame 1 0 sampleMetadata), .push i (chunkFrame 2 0 sampleManifest)]

/-- A stream of epoch 4, one of epoch 5, and a call on the session of the first. -/
def sampleRequests : List (HubRequest Unit 4) :=
  sampleSession 0 4 ++ sampleSession 1 5 ++ [.takeModule 0 1]

abbrev SampleHub := SessionHub Unit Unit Unit Unit (Octets 8 × Octets 16 → Option EpochPin)

def sampleRun : Option (List (HubRequest Unit 4 × HubReply Unit Unit) × SampleHub) :=
  (SessionHub.new fun _ => none : SampleHub).performAll samplePrimitives memoryPinStore
    sampleValidators sampleRequests

def Overtaken (hub : SampleHub) : Prop :=
  ∃ session ∈ hub.sessions[0]?, session.replay.isStore = true ∧
    (∃ d ∈ session.descriptor, ∃ pin ∈ hub.pins (d.header.signerKeyId, d.header.fileId),
      d.header.epoch < pin.epoch) ∧
    ∃ package ∈ session.package, package.capabilities.granted.length ≤ 1

instance (hub : SampleHub) : Decidable (Overtaken hub) :=
  inferInstanceAs (Decidable (∃ session ∈ hub.sessions[0]?, _))

theorem sampleRun_overtaken : ∃ outcome ∈ sampleRun, Overtaken outcome.2 := by decide +kernel

theorem Overtaken.staleAt {hub : SampleHub} (overtaken : Overtaken hub) :
    hub.StaleAt memoryPinStore 0 := by
  obtain ⟨session, located, isStore, ⟨d, installed, pin, found, older⟩, _⟩ := overtaken
  exact ⟨session, located, isStore, d, installed, pin, found, .inl older⟩

theorem sampleRequests_install_nothing : ∀ request ∈ sampleRequests,
    ∀ i args, request ≠ .installCapabilities i args := by
  simp [sampleRequests, sampleSession]

theorem staleSessionsGainNothing_sampleRun :
    ∃ (history : List (HubRequest Unit 4 × HubReply Unit Unit)) (hub : SampleHub),
    Run (SessionHub.Step samplePrimitives memoryPinStore sampleValidators)
      (SessionHub.new fun _ => none) history hub ∧ hub.StaleAt memoryPinStore 0 ∧
    ∀ first label rest here next, history = first ++ label :: rest →
      Run (SessionHub.Step samplePrimitives memoryPinStore sampleValidators)
        (SessionHub.new fun _ => none) first here →
      SessionHub.Step samplePrimitives memoryPinStore sampleValidators here label next →
      ∀ i, label.1.session = some i → here.StaleAt memoryPinStore i →
        GainsNothing label.1 label.2 := by
  obtain ⟨⟨history, hub⟩, performed, overtaken⟩ := sampleRun_overtaken
  obtain ⟨run, names⟩ := SessionHub.run_performAll performed
  refine ⟨history, hub, run, overtaken.staleAt,
    (SessionHub.staleSessionsGainNothing (by decide) _ history).1.mpr ?_⟩
  rintro first label rest here next rfl _ _ ⟨i, args, _, called, _⟩
  have member : label.1 ∈ sampleRequests := by
    rw [← names]
    exact List.mem_map_of_mem (List.mem_append_right _ List.mem_cons_self)
  exact sampleRequests_install_nothing label.1 member i args called

def sampleTable : TableArgs 4 := ⟨⟨.new, ⟨1⟩, 0, 0⟩, Cap.CapabilityTable.new_inv 4⟩

/-- The session of epoch 4 installs its capabilities after epoch 5 was pinned. -/
theorem staleSessionInstalls :
    ∃ (history : List (HubRequest Unit 4 × HubReply Unit Unit)) (hub : SampleHub)
      (reply : HubReply Unit Unit) (next : SampleHub),
    Run (SessionHub.Step samplePrimitives memoryPinStore sampleValidators)
      (SessionHub.new fun _ => none) history hub ∧ hub.StaleAt memoryPinStore 0 ∧
    hub.perform samplePrimitives memoryPinStore sampleValidators
      (.installCapabilities 0 sampleTable) = some (reply, next) ∧
    ¬GainsNothing (.installCapabilities 0 sampleTable : HubRequest Unit 4) reply := by
  obtain ⟨⟨history, hub⟩, performed, overtaken⟩ := sampleRun_overtaken
  obtain ⟨run, _⟩ := SessionHub.run_performAll performed
  obtain ⟨⟨reply, next⟩, made⟩ := Option.ne_none_iff_exists'.mp
    (SessionHub.perform_answers samplePrimitives sampleValidators overtaken.staleAt
       (.inr ⟨sampleTable, rfl⟩))
  have step : SessionHub.Step samplePrimitives memoryPinStore sampleValidators hub
    (.installCapabilities 0 sampleTable, reply) next := made
  refine ⟨history, hub, reply, next, run, overtaken.staleAt, made, fun gains => ?_⟩
  apply (SessionHub.gainsNothing_step (by decide) (SessionHub.packaged_of_run run) step rfl
    overtaken.staleAt).mp gains
  obtain ⟨session, located, isStale⟩ := overtaken.staleAt
  obtain ⟨_, there, _, _, package, held, few⟩ := overtaken
  obtain rfl := some.inj (located.symm.trans there)
  have room : (freeSlots 4 sampleTable.table).card = 4 := by decide
  exact ⟨0, sampleTable, session, rfl, located, isStale, package, held, by omega⟩

end Rvm.Launch
