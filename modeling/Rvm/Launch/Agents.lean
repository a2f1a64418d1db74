import Rvm.Launch.Operations

/-!
Owns what a fleet keeps between its instances and the agents of the registry they
share, over every run.
-/

namespace Rvm.Launch

open Foundation Foundation.Call Witness Wasm Host AgentManager List FleetEvent

variable {sha256 : List UInt8 → Octets 32}

theorem make_spec {here : Scene} (distinct : here.registry.manager.Distinct)
    (settled : Settled here.registry.manager) (registers : here.own.adapter.Registers Eq)
    (inStep : InStep here.own here.registry.manager) (call : LifecycleCall) :
    (call.make sha256).Ensures here (fun _ next => Accepted sha256 call here next)
      fun _ next => Unmoved here next := by
  cases call with
  | start module timestampNs =>
    exact ensures_map.mpr (start_spec distinct settled registers inStep module timestampNs)
  | suspend timestampNs => exact ensures_map.mpr (suspend_spec distinct inStep timestampNs)
  | resume timestampNs => exact ensures_map.mpr (resume_spec distinct inStep timestampNs)
  | checkpoint timestampNs => exact ensures_map.mpr (checkpoint_spec inStep timestampNs)
  | restore snapshot module timestampNs =>
    exact ensures_map.mpr (restore_spec distinct settled registers inStep module timestampNs
      snapshot)
  | terminate timestampNs => exact ensures_map.mpr (terminate_spec distinct inStep timestampNs)

/-! ### Places of a list -/

section Places

variable {α : Type} {items : List α} {item fresh found : α} {i j : Nat}

theorem getElem?_set_cases (at' : (items.set i fresh)[j]? = some found) :
    j = i ∧ found = fresh ∨ j ≠ i ∧ items[j]? = some found := by
  rw [List.getElem?_set] at at'
  split at at'
  · rename_i same
    split at at'
    · exact Or.inl ⟨same.symm, (Option.some.inj at').symm⟩
    · cases at'
  · rename_i different
    exact Or.inr ⟨fun same => different same.symm, at'⟩

theorem getElem?_set_here (held : items[i]? = some item) : (items.set i fresh)[i]? = some fresh := by
  obtain ⟨below, _⟩ := List.getElem?_eq_some_iff.mp held
  rw [List.getElem?_set_self below]

theorem getElem?_snoc_cases (at' : (items ++ [fresh])[j]? = some found) :
    items[j]? = some found ∨ j = items.length ∧ found = fresh := by
  rw [List.getElem?_append] at at'
  split at at'
  · exact Or.inl at'
  · rename_i above
    obtain ⟨below, same⟩ := List.getElem?_eq_some_iff.mp at'
    rw [length_singleton] at below
    refine Or.inr ⟨by omega, ?_⟩
    simpa using same.symm

end Places

/-! ### Instances and agents -/

structure Fleet.InStep (fleet : Fleet) : Prop where
  distinct : fleet.registry.manager.Distinct
  each : ∀ (i : Nat) own, fleet.instances[i]? = some own → Launch.InStep own fleet.registry.manager
  owned : ∀ agent state, fleet.registry.manager.stateOf agent = some state →
    ∃ (i : Nat) (own : Instance), fleet.instances[i]? = some own ∧ own.agent = some agent
  alone : ∀ (i j : Nat) own other agent, fleet.instances[i]? = some own →
    fleet.instances[j]? = some other → own.agent = some agent → other.agent = some agent → i = j

namespace Fleet.InStep

variable {fleet : Fleet} {i : Nat} {own : Instance} {next : Scene}

theorem settled (inStep : fleet.InStep) : Settled fleet.registry.manager := by
  intro agent state live
  obtain ⟨i, own, found, held⟩ := inStep.owned agent state live
  have follows := (inStep.each i own found).follows agent held
  rw [live] at follows
  cases stateIs : own.state <;> rw [stateIs] at follows <;> cases follows <;> exact ⟨nofun, nofun⟩

theorem live (inStep : fleet.InStep) (found : fleet.instances[i]? = some own) {agent : AgentId}
    (held : own.agent = some agent) : fleet.registry.manager.stateOf agent ≠ none := by
  have each := inStep.each i own found
  have present := each.present
  intro none
  rw [← each.follows agent held, held, none] at present
  cases present

section Called

variable (inStep : fleet.InStep) (found : fleet.instances[i]? = some own)

include inStep found

theorem not_other {j : Nat} {other : Instance} {agent : AgentId}
    (origin : own.agent = some agent ∨
      own.agent = none ∧ fleet.registry.manager.stateOf agent = none)
    (different : j ≠ i) (foundOther : fleet.instances[j]? = some other) :
    other.agent ≠ some agent := by
  intro held
  rcases origin with mine | ⟨_, unknown⟩
  · exact different (inStep.alone j i other own agent foundOther found held mine)
  · exact inStep.live foundOther held unknown

theorem changed (inStepNext : Launch.InStep next.own next.registry.manager)
    (change : AgentChange ⟨own, fleet.registry⟩ next) :
    Fleet.InStep ⟨fleet.instances.set i next.own, next.registry⟩ := by
  have untouched : ∀ (j : Nat) other agent, j ≠ i → fleet.instances[j]? = some other →
      other.agent = some agent → next.own.agent ≠ some agent ∧
        next.registry.manager.stateOf agent = fleet.registry.manager.stateOf agent := by
    intro j other agent different foundOther held
    rcases change with ⟨agentSame, managerSame⟩ | ⟨changed, state, origin, agentNext, changes⟩
    · refine ⟨fun mine => ?_, by rw [managerSame]⟩
      exact different (inStep.alone j i other own agent foundOther found held
        (agentSame.symm.trans mine))
    · have apart : agent ≠ changed := by
        rintro rfl
        exact inStep.not_other found origin different foundOther held
      constructor
      · rw [agentNext]
        intro mine
        obtain ⟨_, _, same⟩ := Option.map_eq_some_iff.mp mine
        exact apart same.symm
      · rw [changes.states, if_neg apart]
  constructor
  · rcases change with ⟨_, managerSame⟩ | ⟨_, _, _, _, changes⟩
    · exact managerSame ▸ inStep.distinct
    · exact changes.distinct
  · intro j other foundOther
    rcases getElem?_set_cases foundOther with ⟨rfl, rfl⟩ | ⟨different, foundOther⟩
    · exact inStepNext
    · have each := inStep.each j other foundOther
      refine ⟨each.present, fun agent held => ?_⟩
      rw [(untouched j other agent different foundOther held).2]
      exact each.follows agent held
  · intro agent state live
    have owner : fleet.registry.manager.stateOf agent = some state ∧ own.agent ≠ some agent ∨
        next.own.agent = some agent := by
      rcases change with ⟨agentSame, managerSame⟩ | ⟨changed, after, origin, agentNext, changes⟩
      · by_cases mine : own.agent = some agent
        · exact Or.inr (agentSame.trans mine)
        · exact Or.inl ⟨by rw [← managerSame]; exact live, mine⟩
      · have liveNext := live
        rw [changes.states] at liveNext
        split at liveNext
        · rename_i same
          exact Or.inr (by rw [agentNext, liveNext, same]; rfl)
        · rename_i different
          refine Or.inl ⟨liveNext, fun mine => ?_⟩
          rcases origin with held | ⟨without, _⟩
          · exact different (Option.some.inj (mine.symm.trans held))
          · rw [without] at mine
            cases mine
    rcases owner with ⟨live, notMine⟩ | mine
    · obtain ⟨j, other, foundOther, held⟩ := inStep.owned agent state live
      have different : i ≠ j := by
        rintro rfl
        obtain rfl := Option.some.inj (found.symm.trans foundOther)
        exact notMine held
      exact ⟨j, other, by rw [List.getElem?_set_ne different]; exact foundOther, held⟩
    · exact ⟨i, next.own, getElem?_set_here found, mine⟩
  · intro j k left right agent foundLeft foundRight heldLeft heldRight
    rcases getElem?_set_cases foundLeft with ⟨rfl, rfl⟩ | ⟨differentLeft, leftThere⟩ <;>
      rcases getElem?_set_cases foundRight with ⟨rfl, rfl⟩ | ⟨differentRight, rightThere⟩
    · rfl
    · exact ((untouched k right agent differentRight rightThere heldRight).1 heldLeft).elim
    · exact ((untouched j left agent differentLeft leftThere heldLeft).1 heldRight).elim
    · exact inStep.alone j k left right agent leftThere rightThere heldLeft heldRight

theorem unmoved (unmoved : Unmoved ⟨own, fleet.registry⟩ next) :
    Fleet.InStep ⟨fleet.instances.set i next.own, next.registry⟩ := by
  obtain ⟨_, state, agent, manager⟩ := unmoved
  refine inStep.changed found ?_ (Or.inl ⟨agent, manager⟩)
  obtain ⟨present, follows⟩ := inStep.each i own found
  constructor
  · rw [agent, state]
    exact present
  · rw [agent, state, manager]
    exact follows

theorem advanced (advanced : Advanced ⟨own, fleet.registry⟩ next) :
    Fleet.InStep ⟨fleet.instances.set i next.own, next.registry⟩ :=
  inStep.changed found advanced.inStep advanced.change

end Called

end Fleet.InStep

/-! ### Runs -/

/-- What a fleet keeps: an instance that runs was brought a module its package accepts, and
restored from checkpoints of that package. -/
structure Kept (sha256 : List UInt8 → Octets 32) (history : List FleetEvent) (fleet : Fleet) :
    Prop where
  inStep : fleet.InStep
  registers : ∀ (i : Nat) own, fleet.instances[i]? = some own → own.adapter.Registers Eq
  known : ∀ i call outcome appended, .called i call outcome appended ∈ history →
    i < fleet.instances.length
  admitted : ∀ (i : Nat) own, fleet.instances[i]? = some own →
    own.state = .running ∨ own.state = .suspended →
    ∃ call value appended, .called i call (.ok value) appended ∈ history ∧
      call.Admits sha256 own.package
  lineage : ∀ (i : Nat) own call value appended, fleet.instances[i]? = some own →
    .called i call (.ok value) appended ∈ history → call.OwnLineage own.package

namespace Kept

variable {history : List FleetEvent} {fleet next : Fleet} {event : FleetEvent}

theorem uncalled (kept : Kept sha256 history fleet) (inStep : next.InStep)
    (silent : ∀ i call outcome appended, event ≠ .called i call outcome appended)
    (longer : fleet.instances.length ≤ next.instances.length)
    (each : ∀ (i : Nat) own, next.instances[i]? = some own → own.adapter.Registers Eq ∧
      (own.state = .created ∧ fleet.instances.length ≤ i ∨
        ∃ before, fleet.instances[i]? = some before ∧ own.state = before.state ∧
          own.package = before.package)) :
    Kept sha256 (history ++ [event]) next := by
  have earlier : ∀ {i call outcome appended},
      .called i call outcome appended ∈ history ++ [event] →
      .called i call outcome appended ∈ history := by
    intro i call outcome appended member
    rcases mem_append.mp member with before | last
    · exact before
    · exact (silent _ _ _ _ (mem_singleton.mp last).symm).elim
  constructor
  · exact inStep
  · exact fun i own found => (each i own found).1
  · intro i call outcome appended member
    exact (kept.known i call outcome appended (earlier member)).trans_le longer
  · intro i own found active
    rcases (each i own found).2 with ⟨created, _⟩ | ⟨before, foundBefore, state, package⟩
    · rw [created] at active
      rcases active with impossible | impossible <;> cases impossible
    · rw [state] at active
      obtain ⟨call, value, appended, member, admits⟩ := kept.admitted i before foundBefore active
      exact ⟨call, value, appended, mem_append_left _ member, package ▸ admits⟩
  · intro i own call value appended found member
    rcases (each i own found).2 with ⟨_, new⟩ | ⟨before, foundBefore, _, package⟩
    · have known := kept.known i call _ appended (earlier member)
      omega
    · rw [package]
      exact kept.lineage i before call value appended foundBefore (earlier member)

theorem called (kept : Kept sha256 history fleet) {i : Nat} {own : Instance} {scene : Scene}
    {call : LifecycleCall} {outcome : Except LaunchError (Option Checkpoint)} {appended : Nat}
    (found : fleet.instances[i]? = some own)
    (inStep : Fleet.InStep ⟨fleet.instances.set i scene.own, scene.registry⟩)
    (artifact : SameArtifact own scene.own)
    (active : scene.own.state = .running ∨ scene.own.state = .suspended →
      (own.state = .running ∨ own.state = .suspended) ∨
        (∃ value, outcome = .ok value) ∧ call.Admits sha256 own.package)
    (lineage : ∀ value, outcome = .ok value → call.OwnLineage own.package) :
    Kept sha256 (history ++ [.called i call outcome appended])
      ⟨fleet.instances.set i scene.own, scene.registry⟩ := by
  obtain ⟨below, _⟩ := List.getElem?_eq_some_iff.mp found
  constructor
  · exact inStep
  · intro j other foundOther
    rcases getElem?_set_cases foundOther with ⟨rfl, rfl⟩ | ⟨_, there⟩
    · rw [artifact.adapter]
      exact kept.registers j own found
    · exact kept.registers j other there
  · intro j _ _ _ member
    rw [length_set]
    rcases mem_append.mp member with before | last
    · exact kept.known j _ _ _ before
    · cases mem_singleton.mp last
      exact below
  · intro j other foundOther activeOther
    rcases getElem?_set_cases foundOther with ⟨rfl, rfl⟩ | ⟨_, there⟩
    · rw [artifact.package]
      rcases active activeOther with before | ⟨⟨value, rfl⟩, admits⟩
      · obtain ⟨call, value, appended, member, admits⟩ := kept.admitted j own found before
        exact ⟨call, value, appended, mem_append_left _ member, admits⟩
      · exact ⟨call, value, appended, mem_append_right _ (mem_singleton.mpr rfl), admits⟩
    · obtain ⟨call, value, appended, member, admits⟩ := kept.admitted j other there activeOther
      exact ⟨call, value, appended, mem_append_left _ member, admits⟩
  · intro j other otherCall value _ foundOther member
    rcases getElem?_set_cases foundOther with ⟨rfl, rfl⟩ | ⟨different, there⟩
    · rw [artifact.package]
      rcases mem_append.mp member with before | last
      · exact kept.lineage j own otherCall value _ found before
      · cases mem_singleton.mp last
        exact lineage value rfl
    · rcases mem_append.mp member with before | last
      · exact kept.lineage j other otherCall value _ there before
      · cases mem_singleton.mp last
        exact (different rfl).elim

theorem call_cases (kept : Kept sha256 history fleet) {i : Nat} {own : Instance} {scene : Scene}
    {call : LifecycleCall} {outcome : Except LaunchError (Option Checkpoint)}
    (found : fleet.instances[i]? = some own)
    (ran : (call.make sha256).runFrom ⟨own, fleet.registry⟩ = some (outcome, scene)) :
    (∃ value, outcome = .ok value) ∧ Accepted sha256 call ⟨own, fleet.registry⟩ scene ∨
      (∃ reason, outcome = .error reason) ∧ Unmoved ⟨own, fleet.registry⟩ scene := by
  have spec := @make_spec sha256 ⟨own, fleet.registry⟩ kept.inStep.distinct kept.inStep.settled
    (kept.registers i own found) (kept.inStep.each i own found) call
  rw [Ensures, ran] at spec
  cases outcome with
  | error reason => exact Or.inr ⟨⟨reason, rfl⟩, spec⟩
  | ok value => exact Or.inl ⟨⟨value, rfl⟩, spec⟩

theorem step (kept : Kept sha256 history fleet)
    (step : Step sha256 (HostAdapter.Registers Eq) fleet event next) (alone : event ≠ .meddled) :
    Kept sha256 (history ++ [event]) next := by
  cases step with
  | @created id adapter package placement timestampNs own writes kind ran =>
    have spec := create_spec id adapter package placement timestampNs fleet.registry.writes
    rw [Ensures, ran] at spec
    obtain ⟨⟨state, without, adapterIs⟩, _⟩ := spec
    have inStep : Fleet.InStep ⟨fleet.instances ++ [own], { fleet.registry with writes }⟩ := by
      constructor
      · exact kept.inStep.distinct
      · intro i other found
        rcases getElem?_snoc_cases found with before | ⟨_, rfl⟩
        · exact kept.inStep.each i other before
        · constructor
          · rw [without, state]
            rfl
          · simp [without]
      · intro agent state live
        obtain ⟨i, other, found, held⟩ := kept.inStep.owned agent state live
        exact ⟨i, other, by
          rw [List.getElem?_append_left (List.getElem?_eq_some_iff.mp found).1]
          exact found, held⟩
      · intro i j left right agent foundLeft foundRight heldLeft heldRight
        rcases getElem?_snoc_cases foundLeft with leftBefore | ⟨_, rfl⟩
        · rcases getElem?_snoc_cases foundRight with rightBefore | ⟨_, rfl⟩
          · exact kept.inStep.alone i j left right agent leftBefore rightBefore heldLeft heldRight
          · rw [without] at heldRight
            cases heldRight
        · rw [without] at heldLeft
          cases heldLeft
    apply kept.uncalled inStep
    · simp
    · rw [length_append]
      omega
    · intro i other found
      rcases getElem?_snoc_cases found with before | ⟨rfl, rfl⟩
      · exact ⟨kept.registers i other before, Or.inr ⟨other, before, rfl, rfl⟩⟩
      · exact ⟨adapterIs ▸ kind, Or.inl ⟨state, le_rfl⟩⟩
  | creationRefused kind ran | logged extends' =>
    obtain ⟨distinct, each, owned, single⟩ := kept.inStep
    exact kept.uncalled ⟨distinct, each, owned, single⟩ (by simp) le_rfl
      fun i own found => ⟨kept.registers i own found, Or.inr ⟨own, found, rfl, rfl⟩⟩
  | @adapted i own adapter found kind =>
    have each := kept.inStep.each i own found
    have inStep := @Fleet.InStep.changed _ _ _ ⟨{ own with adapter := adapter }, fleet.registry⟩
      kept.inStep found ⟨each.present, each.follows⟩ (Or.inl ⟨rfl, rfl⟩)
    apply kept.uncalled inStep
    · simp
    · rw [length_set]
    · intro j other foundOther
      rcases getElem?_set_cases foundOther with ⟨rfl, rfl⟩ | ⟨_, there⟩
      · exact ⟨kind, Or.inr ⟨own, found, rfl, rfl⟩⟩
      · exact ⟨kept.registers j other there, Or.inr ⟨other, there, rfl, rfl⟩⟩
  | @called i own outcome scene call found ran =>
    rcases kept.call_cases found ran with ⟨⟨value, rfl⟩, accepted⟩ | ⟨⟨reason, rfl⟩, unmoved⟩
    · apply kept.called found (kept.inStep.advanced found accepted.advanced)
        accepted.advanced.artifact _ fun _ _ => accepted.lineage
      intro active
      by_cases created : own.state = .created
      · rcases accepted.admitted created with terminated | admits
        · rw [terminated] at active
          rcases active with impossible | impossible <;> cases impossible
        · exact Or.inr ⟨⟨value, rfl⟩, admits⟩
      · have alive := accepted.advanced.alive
        left
        cases state : own.state <;> simp_all
    · apply kept.called found (kept.inStep.unmoved found unmoved) unmoved.artifact
      · intro active
        rw [unmoved.state] at active
        exact Or.inl active
      · simp
  | meddled => exact (alone rfl).elim

theorem new (max : Nat) (writes : List WitnessCall) : Kept sha256 [] (Fleet.new max writes) := by
  have empty : ∀ (i : Nat) own, (Fleet.new max writes).instances[i]? ≠ some own := by
    intro i own found
    rw [Fleet.new, List.getElem?_nil] at found
    cases found
  have inStep : (Fleet.new max writes).InStep := by
    constructor
    · exact distinct_new max
    · exact fun i own found => (empty i own found).elim
    · intro agent state live
      have none : (Fleet.new max writes).registry.manager.stateOf agent = none :=
        stateOf_new max agent
      rw [none] at live
      cases live
    · exact fun i _ own _ _ found => (empty i own found).elim
  constructor
  · exact inStep
  · exact fun i own found => (empty i own found).elim
  · exact fun _ _ _ _ member => (not_mem_nil member).elim
  · exact fun i own found => (empty i own found).elim
  · exact fun i own _ _ _ found => (empty i own found).elim

theorem ofRun {max : Nat} {writes : List WitnessCall}
    (run : Run (Step sha256 (HostAdapter.Registers Eq)) (Fleet.new max writes) history fleet)
    (alone : meddled ∉ history) : Kept sha256 history fleet := by
  induction run with
  | nil => exact Kept.new max writes
  | @snoc history event middle final before step ih =>
    have kept := ih fun member => alone (mem_append_left _ member)
    refine kept.step step ?_
    rintro rfl
    exact alone (mem_append_right _ (mem_singleton.mpr rfl))

end Kept

/-! ### Instances and agents stay in step -/

structure Coherent (fleet : Fleet) : Prop where
  one : ∀ agent, fleet.registry.manager.stateOf agent ≠ none →
    ∃! i : Nat, ∃ own, fleet.instances[i]? = some own ∧ own.agent = some agent
  running : ∀ own ∈ fleet.instances, own.state = .running ↔
    ∃ agent, own.agent = some agent ∧ fleet.registry.manager.stateOf agent = some .running
  suspended : ∀ own ∈ fleet.instances, own.state = .suspended ↔
    ∃ agent, own.agent = some agent ∧ fleet.registry.manager.stateOf agent = some .suspended
  without : ∀ own ∈ fleet.instances, own.state = .created ∨ own.state = .terminated →
    own.agent = none

theorem InStep.follows_iff {own : Instance} {manager : AgentManager} (inStep : InStep own manager)
    {state : AgentState} : own.state.agentState = some state ↔
      ∃ agent, own.agent = some agent ∧ manager.stateOf agent = some state := by
  constructor
  · intro expected
    obtain ⟨agent, held⟩ : ∃ agent, own.agent = some agent :=
      Option.isSome_iff_exists.mp (by rw [inStep.present, expected]; rfl)
    exact ⟨agent, held, (inStep.follows agent held).trans expected⟩
  · rintro ⟨agent, held, state⟩
    exact (inStep.follows agent held).symm.trans state

theorem InstanceState.agentState_running (state : InstanceState) :
    state.agentState = some .running ↔ state = .running := by
  cases state <;> decide

theorem InstanceState.agentState_suspended (state : InstanceState) :
    state.agentState = some .suspended ↔ state = .suspended := by
  cases state <;> decide

theorem Fleet.InStep.coherent {fleet : Fleet} (inStep : fleet.InStep) : Coherent fleet := by
  have each : ∀ own ∈ fleet.instances, Launch.InStep own fleet.registry.manager := by
    intro own member
    obtain ⟨i, found⟩ := mem_iff_getElem?.mp member
    exact inStep.each i own found
  constructor
  · intro agent live
    obtain ⟨state, found⟩ := Option.ne_none_iff_exists'.mp live
    obtain ⟨i, own, foundOwn, held⟩ := inStep.owned agent state found
    refine ⟨i, ⟨own, foundOwn, held⟩, ?_⟩
    rintro j ⟨other, foundOther, heldOther⟩
    exact inStep.alone j i other own agent foundOther foundOwn heldOther held
  · intro own member
    rw [← (each own member).follows_iff, InstanceState.agentState_running]
  · intro own member
    rw [← (each own member).follows_iff, InstanceState.agentState_suspended]
  · rintro own member (created | terminated)
    · exact (each own member).without (created ▸ rfl)
    · exact (each own member).without (terminated ▸ rfl)

section Steps

variable {history : List FleetEvent} {fleet next : Fleet} {event : FleetEvent}

theorem Kept.refused {i : Nat} {call : LifecycleCall} {reason : LaunchError} {appended : Nat}
    (kept : Kept sha256 history fleet)
    (step : Step sha256 (HostAdapter.Registers Eq) fleet
      (.called i call (.error reason) appended) next) :
    next.registry.manager = fleet.registry.manager ∧
      next.instances.map (fun own => (own.state, own.agent)) =
        fleet.instances.map fun own => (own.state, own.agent) := by
  generalize eventIs : FleetEvent.called i call (.error reason) appended = event at step
  cases step with
  | called found ran =>
    cases eventIs
    rcases kept.call_cases found ran with ⟨⟨_, impossible⟩, _⟩ | ⟨_, unmoved⟩
    · cases impossible
    · refine ⟨unmoved.manager, ext_getElem? fun j => ?_⟩
      rw [List.getElem?_map, List.getElem?_map, List.getElem?_set]
      split
      · rename_i same
        rw [← same, found]
        split
        · exact congrArg some (Prod.ext unmoved.state unmoved.agent)
        · rename_i above
          exact (above (List.getElem?_eq_some_iff.mp found).1).elim
      · rfl
  | _ => cases eventIs

theorem Kept.terminated_step (kept : Kept sha256 history fleet)
    (step : Step sha256 (HostAdapter.Registers Eq) fleet event next) {i : Nat} {own : Instance}
    (found : fleet.instances[i]? = some own) (terminated : own.state = .terminated) :
    ∃ after, next.instances[i]? = some after ∧ after.state = .terminated := by
  cases step with
  | created kind ran =>
    refine ⟨own, ?_, terminated⟩
    rw [List.getElem?_append_left (List.getElem?_eq_some_iff.mp found).1]
    exact found
  | creationRefused kind ran | logged extends' | meddled => exact ⟨own, found, terminated⟩
  | @adapted j other adapter foundOther kind =>
    by_cases same : j = i
    · obtain rfl := same
      obtain rfl := Option.some.inj (found.symm.trans foundOther)
      exact ⟨_, getElem?_set_here found, terminated⟩
    · exact ⟨own, by rw [List.getElem?_set_ne same]; exact found, terminated⟩
  | @called j other outcome scene call foundOther ran =>
    by_cases same : j = i
    · obtain rfl := same
      obtain rfl := Option.some.inj (found.symm.trans foundOther)
      rcases kept.call_cases found ran with ⟨_, accepted⟩ | ⟨_, unmoved⟩
      · exact (accepted.advanced.alive terminated).elim
      · exact ⟨_, getElem?_set_here found, unmoved.state.trans terminated⟩
    · exact ⟨own, by rw [List.getElem?_set_ne same]; exact found, terminated⟩

theorem Kept.terminated_run (kept : Kept sha256 history fleet) {later : List FleetEvent}
    (run : Run (Step sha256 (HostAdapter.Registers Eq)) fleet later next)
    (alone : meddled ∉ later) {i : Nat} {own : Instance}
    (found : fleet.instances[i]? = some own) (terminated : own.state = .terminated) :
    Kept sha256 (history ++ later) next ∧
      ∃ after, next.instances[i]? = some after ∧ after.state = .terminated := by
  induction run with
  | nil => exact ⟨(append_nil history).symm ▸ kept, own, found, terminated⟩
  | @snoc later event middle final before step ih =>
    obtain ⟨keptMiddle, own, found, terminated⟩ := ih fun member =>
      alone (mem_append_left _ member)
    refine ⟨?_, keptMiddle.terminated_step step found terminated⟩
    rw [← append_assoc]
    refine keptMiddle.step step ?_
    rintro rfl
    exact alone (mem_append_right _ (mem_singleton.mpr rfl))

end Steps

/-- Where adapters register at most the agent they return, instances and agents are in step, and
refused calls change nothing. -/
theorem instancesAndAgentsInStep {max : Nat} {writes : List WitnessCall}
    {history : List FleetEvent} {final : Fleet}
    (run : Run (Step sha256 (HostAdapter.Registers Eq)) (Fleet.new max writes) history final)
    (alone : FleetEvent.meddled ∉ history) :
    Coherent final ∧
      (∀ i call reason appended next, Step sha256 (HostAdapter.Registers Eq) final
          (.called i call (.error reason) appended) next →
        next.registry.manager = final.registry.manager ∧
          next.instances.map (fun own => (own.state, own.agent)) =
            final.instances.map fun own => (own.state, own.agent)) ∧
      (∀ later last, Run (Step sha256 (HostAdapter.Registers Eq)) final later last →
        FleetEvent.meddled ∉ later →
        ∀ (i : Nat) own, final.instances[i]? = some own → own.state = .terminated →
          ∃ after, last.instances[i]? = some after ∧ after.state = .terminated) ∧
      (∀ (i : Nat) own, final.instances[i]? = some own → own.state = .running →
        ∃ call value appended, .called i call (.ok value) appended ∈ history ∧
          call.Admits sha256 own.package) ∧
      ∀ (i : Nat) own snapshot module timestampNs value appended,
        final.instances[i]? = some own →
        .called i (.restore snapshot module timestampNs) (.ok value) appended ∈ history →
        snapshot.belongsTo own.package.identity = true := by
  have kept := Kept.ofRun run alone
  exact ⟨kept.inStep.coherent, fun _ _ _ _ _ step => kept.refused step,
    fun later last run alone i own found terminated =>
      (kept.terminated_run run alone found terminated).2,
    fun i own found running => kept.admitted i own found (Or.inl running),
    fun i own snapshot module timestampNs value appended found member =>
      kept.lineage i own _ value appended found member⟩

/-! ### Runs -/

def wasmHeader : List UInt8 := [0x00, 0x61, 0x73, 0x6d, 0x01, 0x00, 0x00, 0x00]

def samplePackage (identity : UInt8) : VerifiedPackage :=
  ⟨List.Vector.replicate 32 identity, [⟨segTypeWasm, 8, Octets.zero 32⟩], [.memory], [.network]⟩

/-- An adapter that enforces every class. -/
def lenientAdapter : HostAdapter :=
  (⟨16, .portable, fun _ => false, fun _ => true⟩ : AdapterTraits).provided fun _ => .ok ()

set_option maxRecDepth 8000 in
/-- Two instances are started on one registry; one is suspended, the other resumed in vain. -/
theorem shared_run :
    ∃ history final refused, Run (Step (fun _ => Octets.zero 32) (HostAdapter.Registers Eq))
        (Fleet.new 2 []) (history ++ [.called 1 (.resume 6)
          (.error (.illegalTransition .running .resume)) refused]) final ∧
      meddled ∉ history ∧ final.instances.map (·.state) = [.suspended, .running] := by
  have kind : lenientAdapter.Registers Eq := AdapterTraits.provided_registers _ _
  refine ⟨_, _, _, (((((Run.nil.snoc
    (@Step.created _ _ _ 1 lenientAdapter (samplePackage 0) ⟨⟨1⟩, 0, 16⟩ 1 _ _ kind rfl)).snoc
    (@Step.created _ _ _ 2 lenientAdapter (samplePackage 1) ⟨⟨2⟩, 0, 16⟩ 2 _ _ kind rfl)).snoc
    (@Step.called _ _ _ 0 _ _ _ (.start wasmHeader 3) rfl rfl)).snoc
    (@Step.called _ _ _ 1 _ _ _ (.start wasmHeader 4) rfl rfl)).snoc
    (@Step.called _ _ _ 0 _ _ _ (.suspend 5) rfl rfl)).snoc
    (@Step.called _ _ _ 1 _ _ _ (.resume 6) rfl rfl), ?_, rfl⟩
  simp

theorem instancesAndAgentsInStep_shared :
    ∃ final : Fleet, final.instances.map (·.state) = [.suspended, .running] ∧ Coherent final := by
  obtain ⟨history, final, refused, run, alone, states⟩ := shared_run
  exact ⟨final, states, (instancesAndAgentsInStep run (by simpa using alone)).1⟩

/-- It registers an agent and returns the identifier after it. -/
def strayAdapter : HostAdapter where
  prepare := (⟨16, .portable, fun _ => false, fun _ => true⟩ : AdapterTraits).prepare
  spawn isolation _ _ := (· + 1) <$> translate .spawnFailed
    (Registry.spawn ⟨7, isolation.placement.partition, isolation.placement.maxMemoryPages⟩)
  prepareAppends := AdapterTraits.prepare_appends
  spawnAppends _ _ _ _ := by
    simp only [ensures_map, ensures_translate]
    exact Registry.spawn_appends _ _

theorem strayAdapter_registers : strayAdapter.Registers fun _ _ => True := by
  intro isolation module timestampNs here
  simp only [strayAdapter, ensures_map, ensures_translate]
  apply (Registry.spawn_refused _ here).traced.mono
  · exact fun id after ⟨_, ran⟩ => Or.inr ⟨_, id, here, after, rfl, ran, rfl, trivial⟩
  · exact fun _ _ refused => refused.1

set_option maxRecDepth 8000 in
theorem stray_run :
    ∃ history final, Run (Step (fun _ => Octets.zero 32) (HostAdapter.Registers fun _ _ => True))
        (Fleet.new 1 []) history final ∧
      meddled ∉ history ∧ final.instances.map (·.agent) = [none] ∧
      final.registry.manager.stateOf 7 = some .initializing := by
  have kind := strayAdapter_registers
  refine ⟨_, _, (Run.nil.snoc (@Step.created _ _ _ 1 strayAdapter (samplePackage 0)
    ⟨⟨1⟩, 0, 16⟩ 1 _ _ kind rfl)).snoc (@Step.called _ _ _ 0 _ _ _ (.start wasmHeader 2) rfl rfl),
    ?_, rfl, rfl⟩
  simp

/-- Registering at most one agent is not enough: the one that is returned may be
another. -/
theorem registering_one_leaves_stray :
    ¬∀ sha256 max writes history final,
      Run (Step sha256 (HostAdapter.Registers fun _ _ => True)) (Fleet.new max writes) history
        final → FleetEvent.meddled ∉ history → Coherent final := by
  intro claim
  obtain ⟨history, final, run, alone, agents, live⟩ := stray_run
  obtain ⟨i, ⟨own, found, held⟩, _⟩ := (claim _ _ _ _ _ run alone).one 7 (by rw [live]; exact nofun)
  have member : own.agent ∈ final.instances.map (·.agent) :=
    List.mem_map_of_mem (List.mem_of_getElem? found)
  rw [agents, held] at member
  simp at member

end Rvm.Launch
