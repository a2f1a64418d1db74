import Rvm.Launch.Instance

/-!
Owns what one lifecycle operation does to its instance, the agent of the instance and
the registry.
-/

namespace Rvm.Launch

open Foundation Foundation.Call Witness Wasm Host Registry AgentManager Instance

namespace Scene

variable {here : Scene} {event : LaunchEvent} {ctx : LaunchWitnessContext} {state : InstanceState}
  {detail start : Nat} {change : Instance → Instance}

@[simp] theorem emit_own : (here.emit event ctx state detail).own = here.own := rfl

@[simp] theorem emit_manager :
    (here.emit event ctx state detail).registry.manager = here.registry.manager := rfl

@[simp] theorem setOwn_own : (here.setOwn change).own = change here.own := rfl

@[simp] theorem setOwn_registry : (here.setOwn change).registry = here.registry := rfl

@[simp] theorem recordRange_registry : (here.recordRange start).registry = here.registry := rfl

end Scene

namespace Instance

variable {own : Instance} {start stop : Nat}

@[simp] theorem recordRange_state : (own.recordRange start stop).state = own.state := by
  unfold recordRange
  split <;> rfl

@[simp] theorem recordRange_agent : (own.recordRange start stop).agent = own.agent := by
  unfold recordRange
  split <;> rfl

@[simp] theorem recordRange_package : (own.recordRange start stop).package = own.package := by
  unfold recordRange
  split <;> rfl

@[simp] theorem recordRange_adapter : (own.recordRange start stop).adapter = own.adapter := by
  unfold recordRange
  split <;> rfl

end Instance

structure SameArtifact (own after : Instance) : Prop where
  package : after.package = own.package
  adapter : after.adapter = own.adapter

structure Unmoved (here next : Scene) : Prop where
  artifact : SameArtifact here.own next.own
  state : next.own.state = here.own.state
  agent : next.own.agent = here.own.agent
  manager : next.registry.manager = here.registry.manager

def InstanceState.agentState : InstanceState → Option AgentState
  | .created | .terminated => none
  | .running => some .running
  | .suspended => some .suspended

/-- An instance has an agent in the states that need one, and the agent is in the state
that goes with them. -/
structure InStep (own : Instance) (manager : AgentManager) : Prop where
  present : own.agent.isSome = own.state.agentState.isSome
  follows : ∀ agent, own.agent = some agent → manager.stateOf agent = own.state.agentState

/-- The registry changes at most at the agent of the instance, or at one it did not
know, and the instance has that agent as long as it is live. -/
def AgentChange (here next : Scene) : Prop :=
  next.own.agent = here.own.agent ∧ next.registry.manager = here.registry.manager ∨
    ∃ agent state, (here.own.agent = some agent ∨
        here.own.agent = none ∧ here.registry.manager.stateOf agent = none) ∧
      next.own.agent = state.map (fun _ => agent) ∧
      Changed here.registry.manager next.registry.manager agent state

structure Advanced (here next : Scene) : Prop where
  artifact : SameArtifact here.own next.own
  alive : here.own.state ≠ .terminated
  inStep : InStep next.own next.registry.manager
  change : AgentChange here next

variable {here : Scene} {sha256 : List UInt8 → Octets 32} {module : List UInt8}

theorem guard_spec (op : LifecycleOp) (timestampNs : Nat) :
    (guard op timestampNs).Ensures here
      (fun _ next => here = next ∧ isLegal here.own.state op = true)
      fun _ next => Unmoved here next := by
  simp only [Instance.guard, ensures_bind, ensures_get, ensures_refuseIf, Bool.not_eq_false]
  constructor
  · intro _
    constructor <;> simp [Scene.recordRange]
    constructor <;> simp
  · exact fun legal => ⟨trivial, legal⟩

theorem guardExecutable_spec (timestampNs start : Nat) :
    (guardExecutable sha256 module timestampNs start).Ensures here
      (fun _ next => here = next ∧ here.own.package.acceptsWasm sha256 module = true)
      fun _ next => Unmoved here next := by
  simp only [guardExecutable, ensures_bind, ensures_get, ensures_refuseIf, Bool.not_eq_false]
  constructor
  · intro _
    constructor <;> simp [Scene.recordRange]
    constructor <;> simp
  · exact fun accepted => ⟨trivial, accepted⟩

def Settled (manager : AgentManager) : Prop :=
  ∀ agent state, manager.stateOf agent = some state →
    state ≠ .initializing ∧ state ≠ .reconstructing

theorem spawnAgent_spec (distinct : here.registry.manager.Distinct)
    (settled : Settled here.registry.manager) (registers : here.own.adapter.Registers Eq)
    (module : List UInt8) (timestampNs : Nat) :
    (spawnAgent module timestampNs).Ensures here
      (fun _ next => SameArtifact here.own next.own ∧
        ∃ agent, next.own.agent = some agent ∧ here.registry.manager.stateOf agent = none ∧
          Changed here.registry.manager next.registry.manager agent (some .running))
      fun _ next => Unmoved here next := by
  simp only [spawnAgent, onAgents, ensures_bind, ensures_get, ensures_translate,
    ensures_onPart, ensures_modify]
  apply (registers here.own.isolation module timestampNs here.registry).mono
  · rintro agent registry (same | ⟨config, registered, before, after, start, ran, stop, rfl⟩)
    · -- The identifier is of no agent that can be activated.
      have distinctHere : registry.manager.Distinct := same ▸ distinct
      apply (activate_spec distinctHere agent).mono
      · rintro _ _ ⟨ready, _⟩
        rw [same] at ready
        rcases ready with initializing | reconstructing
        · exact ((settled _ _ initializing).1 rfl).elim
        · exact ((settled _ _ reconstructing).2 rfl).elim
      · rintro _ _ ⟨rfl, _⟩
        exact ⟨⟨rfl, rfl⟩, rfl, rfl, same⟩
    · have spawned := spawn_spec (start ▸ distinct) config
      rw [Ensures, ran] at spawned
      obtain ⟨_, unknown, moved⟩ := spawned
      have fresh := moved.changed
      rw [start, stop] at fresh
      rw [start] at unknown
      have initializing : registry.manager.stateOf agent = some .initializing := by
        rw [fresh.states, if_pos rfl]
      apply (activate_spec fresh.distinct agent).mono
      · rintro _ _ ⟨_, activated⟩
        exact ⟨⟨rfl, rfl⟩, agent, rfl, unknown, fresh.trans activated.changed⟩
      · rintro _ _ ⟨_, other⟩
        exact (other initializing).elim
  · intro _ _ same
    exact ⟨⟨rfl, rfl⟩, rfl, rfl, same⟩

theorem enter_spec (event : LaunchEvent) (state : InstanceState)
    (timestampNs detail start : Nat) :
    (enter event state timestampNs detail start).Ensures here
      (fun _ next => SameArtifact here.own next.own ∧ next.own.agent = here.own.agent ∧
        next.own.state = state ∧ next.registry.manager = here.registry.manager)
      fun _ _ => False := by
  simp only [enter, ensures_bind, ensures_get, ensures_modify]
  refine ⟨⟨?_, ?_⟩, ?_, ?_, rfl⟩ <;> simp [Scene.recordRange]

theorem create_spec (id : Nat) (adapter : HostAdapter) (package : VerifiedPackage)
    (placement : Placement) (timestampNs : Nat) (writes : List WitnessCall) :
    (create id adapter package placement timestampNs).Ensures writes
      (fun own next => (own.state = .created ∧ own.agent = none ∧ own.adapter = adapter) ∧
        own.ranges = [(writes.length, next.length)] ∧ writes <+: next)
      fun _ next => writes <+: next := by
  simp only [create, ensures_bind, ensures_get, ensures_translate, ensures_modify, ensures_pure]
  apply (adapter.prepareAppends package placement timestampNs writes).weaken
  intro isolation middle before
  exact ⟨⟨trivial, trivial, trivial⟩, trivial, before.trans (List.prefix_append _ _)⟩

def LifecycleCall.Admits (sha256 : List UInt8 → Octets 32) (package : VerifiedPackage) :
    LifecycleCall → Prop
  | .start module _ => package.acceptsWasm sha256 module = true
  | .restore snapshot module _ =>
    snapshot.belongsTo package.identity = true ∧ package.acceptsWasm sha256 module = true
  | _ => False

def LifecycleCall.OwnLineage (package : VerifiedPackage) : LifecycleCall → Prop
  | .restore snapshot _ _ => snapshot.belongsTo package.identity = true
  | _ => True

structure Accepted (sha256 : List UInt8 → Octets 32) (call : LifecycleCall) (here next : Scene) :
    Prop where
  advanced : Advanced here next
  admitted : here.own.state = .created → next.own.state = .terminated ∨
    call.Admits sha256 here.own.package
  lineage : call.OwnLineage here.own.package

variable {next : Scene}

theorem SameArtifact.trans {first second third : Instance} (before : SameArtifact first second)
    (after : SameArtifact second third) : SameArtifact first third :=
  ⟨after.package.trans before.package, after.adapter.trans before.adapter⟩

theorem advanced_of_changed {agent : AgentId} {target : AgentState}
    (alive : here.own.state ≠ .terminated) (artifact : SameArtifact here.own next.own)
    (held : next.own.agent = some agent)
    (origin : here.own.agent = some agent ∨
      here.own.agent = none ∧ here.registry.manager.stateOf agent = none)
    (changed : Changed here.registry.manager next.registry.manager agent (some target))
    (state : next.own.state.agentState = some target) : Advanced here next where
  artifact := artifact
  alive := alive
  inStep := by
    constructor
    · rw [held, state]
      rfl
    · intro other found
      obtain rfl := Option.some.inj (held.symm.trans found)
      rw [changed.states, if_pos rfl, state]
  change := Or.inr ⟨agent, some target, origin, held, changed⟩

theorem isLegal_alive {state : InstanceState} {op : LifecycleOp} (legal : isLegal state op = true) :
    state ≠ .terminated := by
  rintro rfl
  cases op <;> cases legal

theorem InStep.without {own : Instance} {manager : AgentManager} (inStep : InStep own manager)
    (state : own.state.agentState = none) : own.agent = none := by
  have present := inStep.present
  rw [state] at present
  simpa using present

section Specs

variable (distinct : here.registry.manager.Distinct)
  (inStep : InStep here.own here.registry.manager) (timestampNs : Nat)

include inStep

theorem throughAgent_spec {event : LaunchEvent} {call : AgentId → RegistryCall Unit}
    {start target : AgentState} {after : InstanceState}
    (moves : ∀ agent, (call agent).Ensures here.registry
      (fun _ next => here.registry.manager.stateOf agent = some start ∧
        ∃ record, Moved here.registry next agent (some target) [.append record])
      fun _ next => next = here.registry ∧ here.registry.manager.stateOf agent ≠ some start)
    (starts : here.own.state.agentState = some start) (targets : after.agentState = some target)
    (detail first : Nat) :
    (do withAgent call; enter event after timestampNs detail first :
      LaunchCall Unit).Ensures here (fun _ next => Advanced here next) fun _ _ => False := by
  obtain ⟨agent, held⟩ : ∃ agent, here.own.agent = some agent :=
    Option.isSome_iff_exists.mp (by rw [inStep.present, starts]; rfl)
  have alive : here.own.state ≠ .terminated := by
    intro terminated
    rw [terminated] at starts
    cases starts
  simp only [withAgent, ensures_bind, ensures_get]
  rw [held]
  simp only [onAgents, ensures_translate, ensures_onPart]
  apply (moves agent).mono
  · rintro _ registry ⟨_, record, moved⟩
    apply (enter_spec event after timestampNs detail first).weaken
    rintro _ next ⟨artifact, agentNext, entered, manager⟩
    exact advanced_of_changed alive artifact (agentNext.trans held) (Or.inl held)
      (manager ▸ moved.changed) (entered ▸ targets)
  · rintro _ _ ⟨_, other⟩
    exact other ((inStep.follows agent held).trans starts)

include distinct

theorem suspend_spec : (Instance.suspend timestampNs).Ensures here
    (fun _ next => Accepted sha256 (.suspend timestampNs) here next)
    fun _ next => Unmoved here next := by
  simp only [Instance.suspend, ensures_bind, ensures_get]
  apply (guard_spec .suspend timestampNs).weaken
  rintro _ _ ⟨rfl, legal⟩
  have running : here.own.state = .running := eq_of_beq legal
  have starts : here.own.state.agentState = some .running := congrArg _ running
  rw [← ensures_bind]
  apply (throughAgent_spec inStep timestampNs (Registry.suspend_spec distinct) starts rfl _ _).mono
  · intro _ next advanced
    exact ⟨advanced, fun created => (by cases created.symm.trans running), trivial⟩
  · exact fun _ _ impossible => impossible.elim

theorem resume_spec : (Instance.resume timestampNs).Ensures here
    (fun _ next => Accepted sha256 (.resume timestampNs) here next)
    fun _ next => Unmoved here next := by
  simp only [Instance.resume, ensures_bind, ensures_get]
  apply (guard_spec .resume timestampNs).weaken
  rintro _ _ ⟨rfl, legal⟩
  have suspended : here.own.state = .suspended := eq_of_beq legal
  have starts : here.own.state.agentState = some .suspended := congrArg _ suspended
  rw [← ensures_bind]
  apply (throughAgent_spec inStep timestampNs (Registry.resume_spec distinct) starts rfl _ _).mono
  · intro _ next advanced
    exact ⟨advanced, fun created => (by cases created.symm.trans suspended), trivial⟩
  · exact fun _ _ impossible => impossible.elim

theorem terminate_spec : (Instance.terminate timestampNs).Ensures here
    (fun _ next => Accepted sha256 (.terminate timestampNs) here next)
    fun _ next => Unmoved here next := by
  simp only [Instance.terminate, ensures_bind, ensures_get, ensures_modify]
  apply (guard_spec .terminate timestampNs).weaken
  rintro _ _ ⟨rfl, legal⟩
  have alive := isLegal_alive legal
  have inStepNext : ∀ {next : Scene}, next.own.agent = none → next.own.state = .terminated →
      InStep next.own next.registry.manager := by
    intro next none terminated
    constructor
    · rw [none, terminated]
      rfl
    · simp [none]
  split
  · rename_i agent held
    simp only [onAgents, ensures_bind, ensures_translate, ensures_onPart]
    apply (Registry.terminate_spec distinct agent).mono
    · rintro _ registry ⟨_, record, moved⟩
      apply (enter_spec _ _ _ _ _).mono
      · rintro _ next ⟨artifact, agentNext, entered, manager⟩
        refine ⟨⟨⟨artifact.package, artifact.adapter⟩, alive, inStepNext agentNext entered,
          Or.inr ⟨agent, none, Or.inl held, agentNext, ?_⟩⟩, fun _ => Or.inl entered, trivial⟩
        exact manager ▸ moved.changed
      · exact fun _ _ impossible => impossible.elim
    · -- The agent of an instance is one that the registry knows.
      rintro _ _ ⟨_, unknown⟩
      have present := inStep.present
      rw [← inStep.follows agent held, held, unknown] at present
      cases present
  · rename_i without
    apply (enter_spec _ _ _ _ _).mono
    · rintro _ next ⟨artifact, agentNext, entered, manager⟩
      exact ⟨⟨⟨artifact.package, artifact.adapter⟩, alive, inStepNext agentNext entered,
        Or.inl ⟨agentNext.trans without.symm, manager⟩⟩, fun _ => Or.inl entered, trivial⟩
    · exact fun _ _ impossible => impossible.elim

omit distinct

theorem checkpoint_spec : (checkpoint timestampNs).Ensures here
    (fun _ next => Accepted sha256 (.checkpoint timestampNs) here next)
    fun _ next => Unmoved here next := by
  simp only [checkpoint, ensures_bind, ensures_get, ensures_modify, ensures_pure]
  apply (guard_spec .checkpoint timestampNs).weaken
  rintro _ _ ⟨rfl, legal⟩
  refine ⟨⟨⟨?_, ?_⟩, isLegal_alive legal, ?_, Or.inl ⟨?_, rfl⟩⟩, ?_, trivial⟩
  · simp [Scene.recordRange]
  · simp [Scene.recordRange]
  · constructor
    · simpa [Scene.recordRange] using inStep.present
    · simpa [Scene.recordRange] using inStep.follows
  · simp [Scene.recordRange]
  · intro created
    rw [created] at legal
    cases legal

end Specs

section Specs

variable (distinct : here.registry.manager.Distinct) (settled : Settled here.registry.manager)
  (registers : here.own.adapter.Registers Eq)
  (inStep : InStep here.own here.registry.manager) (module : List UInt8) (timestampNs : Nat)

include distinct settled registers inStep

theorem launch_spec (created : here.own.state = .created) (event : LaunchEvent)
    (detail first : Nat) :
    (do spawnAgent module timestampNs
        enter event .running timestampNs detail first :
      LaunchCall Unit).Ensures here (fun _ next => Advanced here next)
      fun _ next => Unmoved here next := by
  rw [ensures_bind]
  apply (spawnAgent_spec distinct settled registers module timestampNs).weaken
  rintro _ spawned ⟨artifact, agent, held, unknown, changed⟩
  apply (enter_spec event .running timestampNs detail first).mono
  · rintro _ next ⟨artifactNext, agentNext, state, manager⟩
    have none : here.own.agent = none := inStep.without (created ▸ rfl)
    exact advanced_of_changed (created ▸ nofun) (artifact.trans artifactNext)
      (agentNext.trans held) (Or.inr ⟨none, unknown⟩) (manager ▸ changed) (state ▸ rfl)
  · exact fun _ _ impossible => impossible.elim

theorem start_spec : (start sha256 module timestampNs).Ensures here
    (fun _ next => Accepted sha256 (.start module timestampNs) here next)
    fun _ next => Unmoved here next := by
  simp only [start, ensures_bind, ensures_get]
  apply (guard_spec .start timestampNs).weaken
  rintro _ _ ⟨rfl, legal⟩
  have created : here.own.state = .created := eq_of_beq legal
  apply (guardExecutable_spec timestampNs _).weaken
  rintro _ _ ⟨rfl, accepts⟩
  rw [← ensures_bind]
  apply (launch_spec distinct settled registers inStep module timestampNs created _ _ _).weaken
  exact fun _ next advanced => ⟨advanced, fun _ => Or.inr accepts, trivial⟩

theorem restore_spec (snapshot : Checkpoint) :
    (restore sha256 snapshot module timestampNs).Ensures here
      (fun _ next => Accepted sha256 (.restore snapshot module timestampNs) here next)
      fun _ next => Unmoved here next := by
  simp only [restore, ensures_bind, ensures_get, ensures_refuseIf, Bool.not_eq_false]
  constructor
  · intro _
    constructor <;> simp [Scene.recordRange]
    constructor <;> simp
  · intro belongs
    apply (guard_spec .restore timestampNs).weaken
    rintro _ _ ⟨rfl, legal⟩
    split
    · rename_i created
      simp only [ensures_bind]
      apply (guardExecutable_spec timestampNs _).weaken
      rintro _ _ ⟨rfl, accepts⟩
      rw [← ensures_bind]
      apply (launch_spec distinct settled registers inStep module timestampNs created _ _ _).weaken
      exact fun _ next advanced => ⟨advanced, fun _ => Or.inr ⟨belongs, accepts⟩, belongs⟩
    · rename_i notCreated
      have suspended : here.own.state = .suspended := by
        cases state : here.own.state <;> simp_all [isLegal]
      have starts : here.own.state.agentState = some .suspended := congrArg _ suspended
      apply (throughAgent_spec inStep timestampNs (Registry.resume_spec distinct) starts rfl
        _ _).mono
      · exact fun _ next advanced => ⟨advanced, fun created => (notCreated created).elim, belongs⟩
      · exact fun _ _ impossible => impossible.elim

end Specs

end Rvm.Launch
