import Rvm.Context.ResolverEffects

/-!
Owns the statement about the clients of the in-memory resolver, for every order of their
calls. A client is no more than the calls it makes.
-/

namespace Rvm.Context

open Foundation Foundation.Call List

structure ResolverEvent where
  call : ResolverCall
  outcome : Except ContextError ResolverReply

namespace ResolverEvent

def advance (event : ResolverEvent) : Option (LogicalName × Advance AliasSnapshot) :=
  match event.outcome with
  | .ok reply => MemoryResolver.advanceOf event.call reply
  | .error _ => none

def released (event : ResolverEvent) : List (LogicalName × Revision) :=
  match event.outcome with
  | .ok reply => MemoryResolver.releases reply
  | .error _ => []

end ResolverEvent

def advances (history : List ResolverEvent) : List (LogicalName × Advance AliasSnapshot) :=
  history.filterMap ResolverEvent.advance

namespace MemoryResolver

variable {primitives : RvfPrimitives} {objectCapacity aliasCapacity : Nat}
  {here middle next start final : MemoryResolver} {history before after : List ResolverEvent}
  {name : LogicalName} {revision : Revision}

def Step (primitives : RvfPrimitives) (objectCapacity aliasCapacity : Nat) (here : MemoryResolver)
    (event : ResolverEvent) (next : MemoryResolver) : Prop :=
  ((resolver primitives objectCapacity aliasCapacity).serve event.call).runFrom here =
    some (event.outcome, next)

theorem serve_returns (here : MemoryResolver) (call : ResolverCall) :
    ∃ outcome next, Step primitives objectCapacity aliasCapacity here ⟨call, outcome⟩ next := by
  rcases (serve_spec call).outcome with ⟨reply, next, ran, _⟩ | ⟨reason, next, ran, _⟩
  · exact ⟨.ok reply, next, ran⟩
  · exact ⟨.error reason, next, ran⟩

theorem step_functional : ∀ here event left right,
    Step primitives objectCapacity aliasCapacity here event left →
    Step primitives objectCapacity aliasCapacity here event right → left = right :=
  fun _ _ _ _ first second => congrArg Prod.snd (Option.some.inj (first.symm.trans second))

theorem Step.effect {call : ResolverCall} {reply : ResolverReply}
    (step : Step primitives objectCapacity aliasCapacity here ⟨call, .ok reply⟩ next) :
    Effect primitives.sha256 here call reply next := by
  have spec := @serve_spec primitives objectCapacity aliasCapacity here call
  unfold Ensures at spec
  rw [show _ = some (Except.ok reply, next) from step] at spec
  exact spec

theorem Step.unchanged {call : ResolverCall} {reason : ContextError}
    (step : Step primitives objectCapacity aliasCapacity here ⟨call, .error reason⟩ next) :
    next = here := by
  have spec := @serve_spec primitives objectCapacity aliasCapacity here call
  unfold Ensures at spec
  rw [show _ = some (Except.error reason, next) from step] at spec
  exact spec

variable {event : ResolverEvent} {snapshot : AliasSnapshot}

theorem Step.evolves (step : Step primitives objectCapacity aliasCapacity here event next) :
    Evolves primitives.sha256 here next := by
  obtain ⟨call, reason | reply⟩ := event
  · rw [step.unchanged]
    exact .refl here
  · exact step.effect.evolves

theorem Step.released (step : Step primitives objectCapacity aliasCapacity here event next) :
    next.AllVisible event.released := by
  obtain ⟨call, reason | reply⟩ := event
  · exact allVisible_nil
  · exact step.effect.released

theorem aliasOf_named (held : here.aliasOf name = some snapshot) :
    snapshot.aliasUri.logicalName = name := by
  obtain ⟨entry, found, rfl⟩ := Option.map_eq_some_iff.mp held
  have key := entryFor.keyOf_eq found
  exact key

variable {entry : LogicalName × Advance AliasSnapshot}

theorem ok_of_advance (advanced : event.advance = some entry) :
    ∃ reply, event.outcome = .ok reply ∧ advanceOf event.call reply = some entry := by
  unfold ResolverEvent.advance at advanced
  split at advanced
  · rename_i reply outcome
    exact ⟨reply, outcome, advanced⟩
  · cases advanced

theorem Step.aliasStep (step : Step primitives objectCapacity aliasCapacity here event next)
    (advanced : event.advance = some entry) : AliasStep here entry.1 entry.2 next := by
  obtain ⟨reply, outcome, same⟩ := ok_of_advance advanced
  obtain ⟨call, _⟩ := event
  subst outcome
  exact step.effect.advance entry.1 entry.2 same

theorem Step.keeps (step : Step primitives objectCapacity aliasCapacity here event next)
    (quiet : event.advance = none) (name : LogicalName) :
    next.aliasOf name = here.aliasOf name := by
  obtain ⟨call, reason | reply⟩ := event
  · rw [step.unchanged]
  · exact step.effect.noAdvance quiet name

theorem Step.advances_register {advance : Advance AliasSnapshot}
    (step : Step primitives objectCapacity aliasCapacity here event next)
    (seen : event.advance.bind (advanceAt name) = some advance) :
    Advances (fun snapshot => snapshot.generation.value)
      (fun snapshot => snapshot.tombstone = true) (here.aliasOf name) advance
      (next.aliasOf name) := by
  obtain ⟨entry, advanced, same⟩ := Option.bind_eq_some_iff.mp seen
  unfold advanceAt at same
  split at same
  · rename_i key
    cases same
    rw [← key]
    exact (step.aliasStep advanced).advances
  · cases same

theorem Step.keeps_register (step : Step primitives objectCapacity aliasCapacity here event next)
    (silent : event.advance.bind (advanceAt name) = none) :
    next.aliasOf name = here.aliasOf name := by
  cases advanced : event.advance with
  | none => exact step.keeps advanced name
  | some entry =>
    apply (step.aliasStep advanced).others
    rintro rfl
    simp [advanced, advanceAt] at silent

theorem run_evolves
    (run : Run (Step primitives objectCapacity aliasCapacity) start history final) :
    Evolves primitives.sha256 start final :=
  run.stateInvariant (Evolves.refl start) fun _ _ _ earlier step => earlier.trans step.evolves

theorem run_hashed
    (run : Run (Step primitives objectCapacity aliasCapacity) .new history final) :
    final.Hashed primitives.sha256 :=
  (run_evolves run).hashed fun _ member => (not_mem_nil member).elim

theorem Hashed.storedBytes {sha256 : List UInt8 → Octets 32} {bytes : List UInt8}
    (hashed : here.Hashed sha256) (stored : here.storedBytes name revision = some bytes) :
    sha256 bytes = revision.bytes := by
  obtain ⟨object, found, rfl⟩ := Option.map_eq_some_iff.mp stored
  rw [hashed object (entryFor.mem found)]
  exact congrArg (fun key => key.2.bytes) (entryFor.keyOf_eq found)

theorem run_register
    (run : Run (Step primitives objectCapacity aliasCapacity) .new history final)
    (name : LogicalName) :
    Run (Advances (fun snapshot : AliasSnapshot => snapshot.generation.value)
      fun snapshot => snapshot.tombstone = true) none (advancesAt (advances history) name)
      (final.aliasOf name) := by
  rw [advancesAt, advances, filterMap_filterMap]
  apply run.project fun here => here.aliasOf name
  · exact fun _ _ _ _ step seen => step.advances_register seen
  · exact fun _ _ _ step silent => step.keeps_register silent

theorem run_withdrawn
    (run : Run (Step primitives objectCapacity aliasCapacity) start history final)
    (withdrawn : start.Withdrawn name revision) :
    final.Withdrawn name revision ∧ ∀ event ∈ history, (name, revision) ∉ event.released := by
  induction run with
  | nil => exact ⟨withdrawn, fun _ member => (not_mem_nil member).elim⟩
  | snoc _ step ih =>
    have still := step.evolves.withdrawn name revision ih.1
    refine ⟨still, fun other member => ?_⟩
    rcases mem_append.mp member with earlier | last
    · exact ih.2 other earlier
    · rw [mem_singleton.mp last]
      exact fun released => still.hidden (step.released _ released)

theorem run_read
    (run : Run (Step primitives objectCapacity aliasCapacity) start history final) :
    ∀ event ∈ history, ∀ resolved rvf, event.outcome = .ok (.bytes resolved rvf) →
      final.storedBytes resolved.released.1 resolved.released.2 = some rvf := by
  induction run with
  | nil => exact fun _ member => (not_mem_nil member).elim
  | snoc _ step ih =>
    intro event member resolved rvf outcome
    rcases mem_append.mp member with earlier | last
    · exact step.evolves.storedBytes (ih event earlier resolved rvf outcome)
    · obtain rfl := mem_singleton.mp last
      obtain ⟨call, _⟩ := event
      subst outcome
      exact step.effect.read resolved rvf rfl

theorem run_presented_once
    (run : Run (Step primitives objectCapacity aliasCapacity) .new history final) :
    (advances history).Pairwise fun earlier later => earlier.2.1 = later.2.1 →
      earlier.2.1 = none ∧ earlier.1 ≠ later.1 := by
  apply presented_once_in_family fun snapshot : AliasSnapshot => snapshot.aliasUri.logicalName
  · exact fun name => ⟨_, run_register run name⟩
  · intro entry member snapshot presented
    obtain ⟨event, among, advanced⟩ := mem_filterMap.mp member
    have named : ∀ event ∈ history, event.advance = some entry →
        snapshot.aliasUri.logicalName = entry.1 := by
      refine run.forall_labels fun _ _ _ step advanced => ?_
      have presents := (step.aliasStep advanced).advances.presents
      exact aliasOf_named (presents.symm.trans presented)
    exact named event among advanced

theorem run_forgotten {request : AuthorizedRequest} {expected : AliasSnapshot}
    (run : Run (Step primitives objectCapacity aliasCapacity) .new
      (before ++ ⟨.forget request expected, .ok (.snapshot snapshot)⟩ :: after) final)
    (reached : Run (Step primitives objectCapacity aliasCapacity) .new before here) :
    ∀ event ∈ after,
      (∀ revision, here.storedBytes request.target.logicalName revision ≠ none →
        (request.target.logicalName, revision) ∉ event.released) ∧
      ∀ advance, event.advance ≠ some (request.target.logicalName, advance) := by
  obtain ⟨_, next, again, step, rest⟩ := run.split_at
  obtain rfl := reached.deterministic step_functional again
  obtain ⟨closed, withdrawn⟩ := step.effect.forgets request expected snapshot rfl rfl
  intro event member
  constructor
  · intro revision registered
    exact (run_withdrawn rest (withdrawn revision registered)).2 event member
  · intro advance advanced
    have register := run_register run request.target.logicalName
    have later : advance ∈ advancesAt (advances after) request.target.logicalName := by
      apply mem_filterMap.mpr
      exact ⟨_, mem_filterMap.mpr ⟨event, member, advanced⟩, by simp [advanceAt]⟩
    have split : advancesAt (advances (before ++
        ⟨.forget request expected, .ok (.snapshot snapshot)⟩ :: after)) request.target.logicalName =
        advancesAt (advances before) request.target.logicalName ++
          (some expected, snapshot) :: advancesAt (advances after) request.target.logicalName := by
      simp [advances, advancesAt, advanceAt, ResolverEvent.advance, advanceOf]
    rw [split] at register
    rw [Advances.closed_last register closed] at later
    cases later

/-- Clients in any order: stored bodies stay, an alias counts its generations and takes each
snapshot from at most one update, and nothing follows the forgetting of a name. -/
theorem aliasHistory
    (run : Run (Step primitives objectCapacity aliasCapacity) .new history final) :
    (∀ before after here, history = before ++ after →
      Run (Step primitives objectCapacity aliasCapacity) .new before here →
      ∀ name revision bytes, here.storedBytes name revision = some bytes →
        primitives.sha256 bytes = revision.bytes ∧
        final.storedBytes name revision = some bytes) ∧
    (∀ event ∈ history, ∀ resolved rvf, event.outcome = .ok (.bytes resolved rvf) →
      final.storedBytes resolved.released.1 resolved.released.2 = some rvf) ∧
    (∀ name, (advancesAt (advances history) name).map (fun advance => advance.2.generation.value) =
        List.range' 1 (advancesAt (advances history) name).length ∧
      final.aliasOf name = (advancesAt (advances history) name).getLast?.map Prod.snd) ∧
    (advances history).Pairwise (fun earlier later => earlier.2.1 = later.2.1 →
      earlier.2.1 = none ∧ earlier.1 ≠ later.1) ∧
    (∀ before request expected snapshot after here,
      history = before ++ ⟨.forget request expected, .ok (.snapshot snapshot)⟩ :: after →
      Run (Step primitives objectCapacity aliasCapacity) .new before here →
      ∀ event ∈ after,
        (∀ revision, here.storedBytes request.target.logicalName revision ≠ none →
          (request.target.logicalName, revision) ∉ event.released) ∧
        ∀ advance, event.advance ≠ some (request.target.logicalName, advance)) ∧
    (∀ call, ∃ outcome next,
      Step primitives objectCapacity aliasCapacity final ⟨call, outcome⟩ next) ∧
    ∀ call reason next,
      Step primitives objectCapacity aliasCapacity final ⟨call, .error reason⟩ next →
      next = final := by
  refine ⟨?_, run_read run, ?_, run_presented_once run, ?_, serve_returns final, ?_⟩
  · rintro before after here rfl reached name revision bytes stored
    have rest := reached.continues step_functional run
    exact ⟨(run_hashed reached).storedBytes stored, (run_evolves rest).storedBytes stored⟩
  · intro name
    have register := run_register run name
    exact ⟨Advances.levels register, Advances.holds_last register⟩
  · rintro before request expected snapshot after here rfl reached
    exact run_forgotten run reached
  · exact fun _ _ _ step => step.unchanged

/-- SHA-256 of the bodies below: the empty one and the tombstone. -/
def samplePrimitives : RvfPrimitives where
  sha256 := fun bytes =>
    if bytes = [] then ⟨hexBytes
      "e3b0c44298fc1c149afbf4c8996fb92427ae41e4649b934ca495991b7852b855".toList, by decide⟩
    else ⟨hexBytes
      "1951775358380af75998815c7e58f1378e5ee3430de7c8d6390a54789c304946".toList, by decide⟩
  verify := fun _ _ => .error .noSegments

/-- `ruv://a/t/user/u/memory/S`. -/
def sampleAlias : RuvUri :=
  ⟨sampleHost, sampleTenant, sampleSubject, .memory, [sampleSegment], none, none⟩

def sampleRevision : Revision := ⟨samplePrimitives.sha256 []⟩

def samplePut : AuthorizedRequest :=
  ⟨⟨1⟩, .put, { sampleAlias with revision := some sampleRevision }, 0, 0, 0, by decide⟩

def sampleSwap : AuthorizedRequest := ⟨⟨1⟩, .compareAndSwapAlias, sampleAlias, 0, 0, 0, by decide⟩

def sampleForget : AuthorizedRequest := ⟨⟨1⟩, .forget, sampleAlias, 0, 0, 0, by decide⟩

def sampleResolve : AuthorizedRequest := ⟨⟨1⟩, .resolve, sampleAlias, 0, 0, 0, by decide⟩

def sampleFirst : AliasSnapshot := ⟨sampleAlias, sampleRevision, .initial, false, by decide⟩

/-- What the forget leaves of the alias. -/
def sampleLast : AliasSnapshot :=
  ⟨sampleAlias, ⟨samplePrimitives.sha256 [0]⟩, ⟨2, by decide, by decide⟩, true, by decide⟩

/-- A body, two clients that create its alias, a forget and a read. -/
def sampleClients : List ResolverEvent :=
  [⟨.put samplePut [],
      .ok (.resolved ⟨⟨samplePut.target, sampleRevision⟩, sampleRevision, none, 0⟩)⟩,
    ⟨.compareAndSwapAlias sampleSwap none sampleRevision, .ok (.snapshot sampleFirst)⟩,
    ⟨.compareAndSwapAlias sampleSwap none sampleRevision, .error .aliasConflict⟩,
    ⟨.forget sampleForget sampleFirst, .ok (.snapshot sampleLast)⟩,
    ⟨.resolve sampleResolve, .error .tombstoned⟩]

/-- The tables after the put and after the forget. -/
def sampleStored : MemoryResolver := ⟨[⟨samplePut.target, sampleRevision, [], false, false⟩], []⟩

def sampleForgotten : MemoryResolver :=
  ⟨[⟨samplePut.target, sampleRevision, [], false, true⟩,
    ⟨sampleAlias, sampleLast.revision,
      tombstonePayload sampleAlias sampleFirst sampleLast.generation, true, false⟩], [⟨sampleLast⟩]⟩

theorem sampleClients_run : Run (Step samplePrimitives 4 4) .new sampleClients sampleForgotten := by
  have forgotten : Run (Step samplePrimitives 4 4) .new (sampleClients.take 4) sampleForgotten :=
    .cons rfl <| .cons rfl <| .cons rfl <| .single rfl
  exact forgotten.snoc rfl

theorem aliasHistory_sampleClients :
    (advancesAt (advances sampleClients) sampleAlias.logicalName).map
        (fun advance => advance.2.generation.value) = [1, 2] ∧
    sampleForgotten.storedBytes sampleAlias.logicalName sampleRevision = some [] := by
  obtain ⟨stored, _, generations, _⟩ := aliasHistory sampleClients_run
  constructor
  · rw [(generations sampleAlias.logicalName).1]
    rfl
  · have reached : Run (Step samplePrimitives 4 4) .new (sampleClients.take 1) sampleStored :=
      .single rfl
    exact (stored _ (sampleClients.drop 1) _ rfl reached _ _ _ rfl).2

end MemoryResolver

end Rvm.Context
