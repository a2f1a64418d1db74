import Rvm.Launch.Operations
import Rvm.Foundation.Spans

/-!
Owns the span of one lifecycle operation: when an operation closes a span over every
record it appended, and what a refused one records.
-/

namespace Rvm.Launch

open Foundation Foundation.Call Witness Wasm Host Registry Instance List

/-- The operation has one span, over the records that it appended. -/
structure Spanned (here next : Scene) (appended : List WitnessCall) : Prop where
  writes : next.registry.writes = here.registry.writes ++ appended
  ranges : next.own.ranges = here.own.ranges ++ [(here.totalEmitted, next.totalEmitted)]

/-- The operation was refused, which its span says. -/
def Refused (here next : Scene) : Prop :=
  ∃ record : WitnessRecord, Spanned here next [.append record] ∧
    record.actionKind = ActionKind.proofRejected.asU8

/-- No span is closed yet. -/
structure Within (here middle : Scene) : Prop where
  writes : here.registry.writes <+: middle.registry.writes
  ranges : middle.own.ranges = here.own.ranges

variable {here middle next : Scene} {sha256 : List UInt8 → Octets 32} {module : List UInt8}

theorem Within.refl (here : Scene) : Within here here := ⟨prefix_rfl, rfl⟩

theorem Within.close (within : Within here middle) (event : LaunchEvent)
    (ctx : LaunchWitnessContext) (state : InstanceState) (detail : Nat) :
    ∃ appended, middle.registry.writes = here.registry.writes ++ appended ∧
      Spanned here ((middle.emit event ctx state detail).recordRange here.totalEmitted)
        (appended ++ [.append (buildRecord event ctx state detail)]) := by
  obtain ⟨appended, continued⟩ := within.writes
  have emitted : (middle.emit event ctx state detail).totalEmitted = middle.totalEmitted + 1 :=
    length_append
  have longer : here.totalEmitted < middle.totalEmitted + 1 := by
    unfold Scene.totalEmitted
    rw [← continued, length_append]
    omega
  refine ⟨appended, continued.symm, ?_, ?_⟩
  · show middle.registry.writes ++ _ = _
    rw [← continued, append_assoc]
  · show (recordRange here.totalEmitted
      (middle.emit event ctx state detail).totalEmitted middle.own).ranges = _
    rw [recordRange, emitted, if_pos longer, within.ranges]
    show _ = _ ++ [(_, (middle.emit event ctx state detail).totalEmitted)]
    rw [emitted]

theorem refused_close (event : LaunchEvent) (ctx : LaunchWitnessContext) (state : InstanceState)
    (detail : Nat) (refusal : event.actionKind = .proofRejected) :
    Refused here ((here.emit event ctx state detail).recordRange here.totalEmitted) := by
  obtain ⟨appended, same, spanned⟩ := (Within.refl here).close event ctx state detail
  obtain rfl : appended = [] := self_eq_append_right.mp same
  exact ⟨_, spanned, congrArg ActionKind.asU8 refusal⟩

theorem guard_spans (op : LifecycleOp) (timestampNs : Nat) :
    (guard op timestampNs).Ensures here
      (fun _ next => here = next ∧ isLegal here.own.state op = true)
      fun _ next => Refused here next := by
  simp only [Instance.guard, ensures_bind, ensures_get, ensures_refuseIf, Bool.not_eq_false]
  exact ⟨fun _ => refused_close _ _ _ _ rfl, fun legal => ⟨trivial, legal⟩⟩

theorem guardExecutable_spans (timestampNs : Nat) :
    (guardExecutable sha256 module timestampNs here.totalEmitted).Ensures here
      (fun _ next => here = next ∧ here.own.package.acceptsWasm sha256 module = true)
      fun _ next => Refused here next := by
  simp only [guardExecutable, ensures_bind, ensures_get, ensures_refuseIf, Bool.not_eq_false]
  exact ⟨fun _ => refused_close _ _ _ _ rfl, fun accepts => ⟨trivial, accepts⟩⟩

def AgentIn (here : Scene) (state : AgentState) : Prop :=
  ∀ agent, here.own.agent = some agent → here.registry.manager.stateOf agent = some state

def Launches (here : Scene) (module : List UInt8) (timestampNs : Nat) : Prop :=
  (here.own.adapter.spawn here.own.isolation module timestampNs).Ensures here.registry
    (fun agent next => next.manager.stateOf agent = some .initializing ∨
      next.manager.stateOf agent = some .reconstructing)
    fun _ _ => False

/-- Behind the guards of a call, neither the adapter nor the registry refuses it. -/
def LifecycleCall.Proceeds (sha256 : List UInt8 → Octets 32) (here : Scene) :
    LifecycleCall → Prop
  | .start module timestampNs =>
    isLegal here.own.state .start = true → here.own.package.acceptsWasm sha256 module = true →
      Launches here module timestampNs
  | .suspend _ => isLegal here.own.state .suspend = true → AgentIn here .running
  | .resume _ => isLegal here.own.state .resume = true → AgentIn here .suspended
  | .checkpoint _ => True
  | .restore snapshot module timestampNs =>
    snapshot.belongsTo here.own.package.identity = true →
      isLegal here.own.state .restore = true →
      if here.own.state = .created then
        here.own.package.acceptsWasm sha256 module = true → Launches here module timestampNs
      else AgentIn here .suspended
  | .terminate _ =>
    isLegal here.own.state .terminate = true →
      ∀ agent, here.own.agent = some agent → here.registry.manager.stateOf agent ≠ none

theorem spawnAgent_spans {timestampNs : Nat} (launches : Launches here module timestampNs) :
    (spawnAgent module timestampNs).Ensures here (fun _ next => Within here next)
      fun _ _ => False := by
  simp only [spawnAgent, onAgents, ensures_bind, ensures_get, ensures_translate,
    ensures_onPart, ensures_modify]
  apply (launches.both (here.own.adapter.spawnAppends _ _ _ _)).mono
  · rintro agent registry ⟨ready, appends⟩
    apply (activate_cases registry agent).mono
    · rintro _ _ ⟨_, _, _, rfl⟩
      exact ⟨appends, rfl⟩
    · rintro _ _ ⟨_, notInitializing, notReconstructing⟩
      exact ready.elim notInitializing notReconstructing
  · exact fun _ _ impossible => impossible.1

theorem withAgent_spans {call : AgentId → RegistryCall Unit} {start target : AgentState}
    {action : ActionKind} (moves : ∀ agent, (call agent).Ensures here.registry
      (fun _ next => ∃ found, here.registry.manager.get agent = some found ∧ found.state = start ∧
        next = ⟨here.registry.withState found target, here.registry.writes ++
          [.append (agentRecord action found.partitionId agent)]⟩)
      fun _ next => next = here.registry ∧ here.registry.manager.stateOf agent ≠ some start)
    (agentIn : AgentIn here start) :
    (withAgent call).Ensures here (fun _ next => Within here next)
      fun _ _ => False := by
  simp only [withAgent, ensures_bind, ensures_get]
  split
  · rename_i agent held
    simp only [onAgents, ensures_translate, ensures_onPart]
    apply (moves agent).mono
    · rintro _ _ ⟨_, _, _, _, rfl⟩
      exact ⟨prefix_append _ _, rfl⟩
    · rintro _ _ ⟨_, other⟩
      exact other (agentIn agent held)
  · exact Within.refl here

theorem enter_spans (within : Within here middle) (event : LaunchEvent) (state : InstanceState)
    (timestampNs detail : Nat) :
    (enter event state timestampNs detail here.totalEmitted).Ensures middle
      (fun _ next => ∃ appended, Spanned here next appended) fun _ _ => False := by
  simp only [enter, ensures_bind, ensures_get, ensures_modify]
  have entered : Within here (middle.setOwn fun own => { own with state := state }) :=
    ⟨within.writes, within.ranges⟩
  obtain ⟨_, _, spanned⟩ := entered.close event
    ((middle.setOwn fun own => { own with state := state }).own.witnessContext timestampNs) state
    detail
  exact ⟨_, spanned⟩

theorem through_spans {first : LaunchCall Unit} {event : LaunchEvent} {state : InstanceState}
    {timestampNs detail : Nat}
    (goes : first.Ensures here (fun _ next => Within here next) fun _ _ => False) :
    (do first; enter event state timestampNs detail here.totalEmitted :
      LaunchCall Unit).Ensures here (fun _ next => ∃ appended, Spanned here next appended)
      fun _ next => Refused here next := by
  rw [ensures_bind]
  apply goes.mono
  · intro _ middle within
    apply (enter_spans within event state timestampNs detail).mono
    · exact fun _ _ spanned => spanned
    · exact fun _ _ impossible => impossible.elim
  · exact fun _ _ impossible => impossible.elim

theorem make_spans (call : LifecycleCall) (proceeds : call.Proceeds sha256 here) :
    (call.make sha256).Ensures here (fun _ next => ∃ appended, Spanned here next appended)
      fun _ next => Refused here next := by
  cases call with
  | start module timestampNs =>
    simp only [LifecycleCall.make, start, ensures_map, ensures_bind, ensures_get]
    apply (guard_spans .start timestampNs).weaken
    rintro _ _ ⟨rfl, legal⟩
    apply (guardExecutable_spans timestampNs).weaken
    rintro _ _ ⟨rfl, accepts⟩
    rw [← ensures_bind]
    exact through_spans (spawnAgent_spans (proceeds legal accepts))
  | suspend timestampNs =>
    simp only [LifecycleCall.make, Instance.suspend, ensures_map, ensures_bind, ensures_get]
    apply (guard_spans .suspend timestampNs).weaken
    rintro _ _ ⟨rfl, legal⟩
    rw [← ensures_bind]
    exact through_spans (withAgent_spans (fun _ => transition_exact _ _) (proceeds legal))
  | resume timestampNs =>
    simp only [LifecycleCall.make, Instance.resume, ensures_map, ensures_bind, ensures_get]
    apply (guard_spans .resume timestampNs).weaken
    rintro _ _ ⟨rfl, legal⟩
    rw [← ensures_bind]
    exact through_spans (withAgent_spans (fun _ => transition_exact _ _) (proceeds legal))
  | checkpoint timestampNs =>
    simp only [LifecycleCall.make, checkpoint, ensures_map, ensures_bind, ensures_get,
      ensures_modify, ensures_pure]
    apply (guard_spans .checkpoint timestampNs).weaken
    rintro _ _ ⟨rfl, legal⟩
    have counted : Within here (here.setOwn fun own =>
        { own with checkpoints := u32Capped (own.checkpoints + 1) }) :=
      ⟨prefix_rfl, rfl⟩
    obtain ⟨_, _, spanned⟩ := counted.close .checkpointTaken
      (here.own.witnessContext timestampNs) here.own.state here.own.checkpoints
    exact ⟨_, spanned⟩
  | restore snapshot module timestampNs =>
    simp only [LifecycleCall.make, restore, ensures_map, ensures_bind, ensures_get,
      ensures_refuseIf, Bool.not_eq_false]
    refine ⟨fun _ => refused_close _ _ _ _ rfl, fun belongs => ?_⟩
    apply (guard_spans .restore timestampNs).weaken
    rintro _ _ ⟨rfl, legal⟩
    have goes := proceeds belongs legal
    split
    · rename_i created
      rw [if_pos created] at goes
      simp only [ensures_bind]
      apply (guardExecutable_spans timestampNs).weaken
      rintro _ _ ⟨rfl, accepts⟩
      rw [← ensures_bind]
      exact through_spans (spawnAgent_spans (goes accepts))
    · rename_i notCreated
      rw [if_neg notCreated] at goes
      exact through_spans (withAgent_spans (fun _ => transition_exact _ _) goes)
  | terminate timestampNs =>
    simp only [LifecycleCall.make, Instance.terminate, ensures_map, ensures_bind, ensures_get,
      ensures_modify]
    apply (guard_spans .terminate timestampNs).weaken
    rintro _ _ ⟨rfl, legal⟩
    have enters : ∀ middle, Within here middle →
        (enter .instanceTerminated .terminated timestampNs here.own.checkpoints
          here.totalEmitted).Ensures middle (fun _ next => ∃ appended, Spanned here next appended)
          fun _ next => Refused here next := by
      intro middle within
      apply (enter_spans within .instanceTerminated .terminated timestampNs _).mono
      · exact fun _ _ spanned => spanned
      · exact fun _ _ impossible => impossible.elim
    split
    · rename_i agent held
      simp only [onAgents, ensures_bind, ensures_translate, ensures_onPart]
      apply (terminate_exact here.registry agent).mono
      · rintro _ _ ⟨_, _, rfl⟩
        exact enters _ ⟨prefix_append _ _, rfl⟩
      · rintro _ _ ⟨_, absent⟩
        exact (proceeds legal agent held absent).elim
    · exact enters _ ⟨prefix_rfl, rfl⟩

end Rvm.Launch
