import Rvm.Foundation.Run
import Rvm.Wasm.Agent

/-!
Owns what the witness log says of the agents of a registry: replaying the records of a
run of calls, and how far the states it arrives at are those of the live agents.
-/

namespace Rvm.Wasm

open Foundation Foundation.Call Witness AgentManager List Function ActionKind

inductive AgentRequest where
  | spawn (config : AgentConfig)
  | activate (id : AgentId)
  | suspend (id : AgentId)
  | resume (id : AgentId)
  | terminate (id : AgentId)

namespace AgentRequest

def agent : AgentRequest → AgentId
  | .spawn config => config.badge
  | .activate id => id
  | .suspend id => id
  | .resume id => id
  | .terminate id => id

def target : AgentRequest → Option AgentState
  | .spawn _ => some .initializing
  | .activate _ => some .running
  | .suspend _ => some .suspended
  | .resume _ => some .running
  | .terminate _ => none

/-- The kind of the record that the transition is witnessed by. -/
def action : AgentRequest → Option ActionKind
  | .spawn _ => some .taskSpawn
  | .activate _ => none
  | .suspend _ => some .partitionSuspend
  | .resume _ => some .partitionResume
  | .terminate _ => some .taskTerminate

def isActivate : AgentRequest → Bool
  | .activate _ => true
  | _ => false

def records (request : AgentRequest) (partition : PartitionId) : List WitnessCall :=
  match request.action with
  | none => []
  | some action => [.append (Registry.agentRecord action partition request.agent)]

end AgentRequest

namespace Registry

def perform : AgentRequest → RegistryCall Unit
  | .spawn config => (fun _ => ()) <$> spawn config
  | .activate id => activate id
  | .suspend id => suspend id
  | .resume id => resume id
  | .terminate id => terminate id

def Step (here : Registry) (label : AgentRequest × Except RvmError Unit) (next : Registry) : Prop :=
  (perform label.1).runFrom here = some (label.2, next)

def new (max : Nat) : Registry := ⟨.new max, []⟩

variable {here next : Registry} {request : AgentRequest}

theorem perform_spec (distinct : here.manager.Distinct) (request : AgentRequest) :
    (perform request).Ensures here
      (fun _ next => (∃ partition,
          Moved here next request.agent request.target (request.records partition)) ∧
        (request.isActivate = true → here.manager.stateOf request.agent = some .initializing ∨
          here.manager.stateOf request.agent = some .reconstructing))
      fun _ next => next = here ∧ (request.isActivate = true →
        here.manager.stateOf request.agent ≠ some .initializing) := by
  cases request with
  | spawn config =>
    apply ensures_map.mpr
    apply (spawn_spec distinct config).mono
    · rintro _ _ ⟨rfl, _, moved⟩
      exact ⟨⟨config.partitionId, moved⟩, nofun⟩
    · exact fun _ _ same => ⟨same, nofun⟩
  | activate id =>
    exact (activate_spec distinct id).mono
      (fun _ _ activated => ⟨⟨⟨0⟩, activated.2⟩, fun _ => activated.1⟩)
      fun _ _ refused => ⟨refused.1, fun _ => refused.2⟩
  | suspend id | resume id =>
    apply (transition_exact here id).mono _ fun _ _ same => ⟨same.1, nofun⟩
    rintro _ _ ⟨agent, found, _, rfl⟩
    exact ⟨⟨agent.partitionId, moved_withState distinct found (by decide) _⟩, nofun⟩
  | terminate id =>
    apply (terminate_exact here id).mono _ fun _ _ same => ⟨same.1, nofun⟩
    rintro _ _ ⟨agent, found, rfl⟩
    exact ⟨⟨agent.partitionId, changed_remove distinct found, rfl⟩, nofun⟩

/-- `count` is the number of occupied slots. -/
def Counted (manager : AgentManager) : Prop :=
  manager.count = manager.agents.countP Option.isSome

theorem occupied_fill {fresh : Agent} {slots filled : List (Option Agent)}
    (placed : fill fresh slots = some filled) :
    filled.countP Option.isSome = slots.countP Option.isSome + 1 := by
  obtain ⟨before, after, rfl, rfl⟩ := slots_of_filled placed
  simp [Nat.add_assoc]

theorem occupied_replace {id : AgentId} {value : Option Agent} {slots : List (Option Agent)}
    (found : ∃ slot ∈ slots, holds id slot = true) :
    (replace id value slots).countP Option.isSome + 1 =
      slots.countP Option.isSome + if value.isSome then 1 else 0 := by
  obtain ⟨before, held, after, rfl, holding, written⟩ := slots_of_held found
  obtain ⟨agent, rfl, _⟩ := exists_of_holds holding
  rw [written, countP_append, countP_cons, countP_append, countP_cons]
  simp only [Option.isSome_some, if_true]
  omega

theorem counted_new (max : Nat) : Counted (.new max) := by
  have none : (List.replicate max (none : Option Agent)).countP Option.isSome = 0 := by
    rw [countP_replicate]
    rfl
  exact none.symm

theorem counted_withState {agent : Agent} {id : AgentId} {state : AgentState}
    (counted : Counted here.manager) (found : here.manager.get id = some agent) :
    Counted (here.withState agent state) := by
  obtain rfl := get_id found
  have replaced := @occupied_replace agent.id (some { agent with state := state }) _
    (lookup_holds found).2
  simp only [Option.isSome_some, if_true, Nat.add_right_cancel_iff] at replaced
  exact counted.trans replaced.symm

theorem spawn_counted (counted : Counted here.manager) (config : AgentConfig) :
    (spawn config).Ensures here (fun _ next => Counted next.manager) fun _ _ => True := by
  unfold spawn emitAgentWitness
  simp only [ensures_bind, ensures_get, ensures_throwIf, ensures_orThrow, ensures_set,
    ensures_modify, ensures_pure]
  refine ⟨fun _ => trivial, fun _ => ⟨fun _ => trivial, fun _ =>
    ⟨fun filled placed => ?_, fun _ => trivial⟩⟩⟩
  show here.manager.count + 1 = filled.countP Option.isSome
  rw [occupied_fill placed, counted]

theorem perform_counted (counted : Counted here.manager) (request : AgentRequest) :
    (perform request).Ensures here (fun _ next => Counted next.manager) fun _ _ => True := by
  cases request with
  | spawn config => exact ensures_map.mpr (spawn_counted counted config)
  | activate id =>
    apply (activate_cases here id).mono _ fun _ _ _ => trivial
    rintro _ _ ⟨agent, found, _, rfl⟩
    exact counted_withState counted found
  | suspend id | resume id =>
    apply (transition_exact here id).mono _ fun _ _ _ => trivial
    rintro _ _ ⟨agent, found, _, rfl⟩
    exact counted_withState counted found
  | terminate id =>
    apply (terminate_exact here id).mono _ fun _ _ _ => trivial
    rintro _ _ ⟨agent, found, rfl⟩
    have replaced := @occupied_replace id none _ (lookup_holds found).2
    show here.manager.count - 1 = (replace id none here.manager.agents).countP Option.isSome
    simp only [Option.isSome_none, Bool.false_eq_true, if_false] at replaced
    rw [counted]
    omega

def replayRecord (live : AgentId → Option AgentState) (record : WitnessRecord) :
    AgentId → Option AgentState :=
  if record.actionKind = taskSpawn.asU8 then
    update live record.targetObjectId (some .initializing)
  else if record.actionKind = partitionSuspend.asU8 then
    update live record.targetObjectId (some .suspended)
  else if record.actionKind = partitionResume.asU8 then
    update live record.targetObjectId (some .running)
  else if record.actionKind = taskTerminate.asU8 then
    update live record.targetObjectId none
  else live

def replay (records : List WitnessRecord) : AgentId → Option AgentState :=
  records.foldl replayRecord fun _ => none

def handed : WitnessCall → WitnessRecord
  | .append record => record
  | .signedAppend record _ => record

def replayCalls (calls : List WitnessCall) : AgentId → Option AgentState :=
  calls.foldl (fun live call => replayRecord live (handed call)) fun _ => none

/-- The log fills in other fields of a record than those that are replayed. -/
theorem replay_produced (N : Nat) (hasher : ChainHasher) (log : WitnessLog)
    (calls : List WitnessCall) : replay (log.produced N hasher calls) = replayCalls calls := by
  suffices ∀ start, (log.produced N hasher calls).foldl replayRecord start =
      calls.foldl (fun live call => replayRecord live (handed call)) start from this _
  induction calls generalizing log with
  | nil => exact fun _ => rfl
  | cons call rest ih =>
    intro start
    have same : replayRecord start (log.emits hasher call) = replayRecord start (handed call) := by
      cases call <;> rfl
    rw [WitnessLog.produced, foldl_cons, foldl_cons, same, ih]

theorem replayCalls_records (calls : List WitnessCall) (request : AgentRequest)
    (partition : PartitionId) :
    replayCalls (calls ++ request.records partition) =
      if request.isActivate then replayCalls calls
      else update (replayCalls calls) request.agent request.target := by
  rw [replayCalls, foldl_append]
  cases request <;> rfl

variable {history : List (AgentRequest × Except RvmError Unit)} {registry : Registry}

def transitions (history : List (AgentRequest × Except RvmError Unit)) : Nat :=
  history.countP fun label => label.2.isOk

def activations (history : List (AgentRequest × Except RvmError Unit)) : Nat :=
  history.countP fun label => label.2.isOk && label.1.isActivate

structure Kept (history : List (AgentRequest × Except RvmError Unit)) (registry : Registry) :
    Prop where
  distinct : registry.manager.Distinct
  counted : Counted registry.manager
  records : registry.writes.length + activations history = transitions history
  restored : ∀ id, registry.manager.stateOf id ≠ some .reconstructing
  /-- The log misses the activation of an agent, and nothing else. -/
  lags : ∀ id, registry.manager.stateOf id = replayCalls registry.writes id ∨
    0 < activations history ∧ registry.manager.stateOf id = some .running ∧
      replayCalls registry.writes id = some .initializing

theorem kept_new (max : Nat) : Kept [] (new max) where
  distinct := distinct_new max
  counted := counted_new max
  records := rfl
  restored id := by
    show (AgentManager.new max).stateOf id ≠ _
    rw [stateOf_new]
    nofun
  lags id := Or.inl (stateOf_new max id)

theorem Kept.refused (kept : Kept history here) (request : AgentRequest) (reason : RvmError) :
    Kept (history ++ [(request, .error reason)]) here where
  distinct := kept.distinct
  counted := kept.counted
  records := by
    rw [activations, transitions, countP_append, countP_append]
    exact kept.records
  restored := kept.restored
  lags id := by
    rw [activations, countP_append]
    exact kept.lags id

theorem length_records (request : AgentRequest) (partition : PartitionId) :
    (request.records partition).length + (if request.isActivate then 1 else 0) = 1 := by
  cases request <;> rfl

theorem target_ne_reconstructing (request : AgentRequest) :
    request.target ≠ some .reconstructing := by
  cases request <;> nofun

theorem target_of_activate (activate : request.isActivate = true) :
    request.target = some .running := by
  cases request <;> first | rfl | cases activate

theorem activations_snoc (request : AgentRequest) :
    activations (history ++ [(request, .ok ())]) =
      activations history + if request.isActivate then 1 else 0 := by
  rw [activations, countP_append, countP_singleton]
  rfl

theorem Kept.moved (kept : Kept history here) {partition : PartitionId}
    (moved : Moved here next request.agent request.target (request.records partition))
    (ready : request.isActivate = true → here.manager.stateOf request.agent = some .initializing ∨
      here.manager.stateOf request.agent = some .reconstructing)
    (counted : Counted next.manager) : Kept (history ++ [(request, .ok ())]) next where
  distinct := moved.changed.distinct
  counted := counted
  records := by
    have before := kept.records
    have one := length_records request partition
    rw [activations_snoc, moved.writes, length_append, transitions, countP_append]
    rw [transitions] at before
    show _ = _ + 1
    omega
  restored id := by
    rw [moved.changed.states]
    split
    · exact target_ne_reconstructing request
    · exact kept.restored id
  lags id := by
    rw [moved.changed.states, moved.writes, replayCalls_records, activations_snoc]
    by_cases activate : request.isActivate = true
    · rw [if_pos activate, if_pos activate]
      by_cases same : id = request.agent
      · rw [if_pos same, same, target_of_activate activate]
        have initializing := (ready activate).resolve_right (kept.restored _)
        rcases kept.lags request.agent with agree | ⟨_, running, _⟩
        · exact Or.inr ⟨Nat.succ_pos _, rfl, agree.symm.trans initializing⟩
        · rw [running] at initializing
          cases initializing
      · rw [if_neg same]
        exact (kept.lags id).imp_right fun behind => ⟨Nat.succ_pos _, behind.2⟩
    · rw [if_neg activate, if_neg activate]
      by_cases same : id = request.agent
      · rw [if_pos same, same, update_self]
        exact Or.inl rfl
      · rw [if_neg same, update_of_ne same]
        exact kept.lags id

theorem Kept.step {label : AgentRequest × Except RvmError Unit} (kept : Kept history here)
    (step : Step here label next) : Kept (history ++ [label]) next := by
  obtain ⟨request, outcome⟩ := label
  have spec := (perform_spec kept.distinct request).both (perform_counted kept.counted request)
  rw [Ensures, show (perform request).runFrom here = _ from step] at spec
  cases outcome with
  | error reason =>
    obtain rfl : next = here := spec.1.1
    exact kept.refused request reason
  | ok value =>
    obtain ⟨⟨⟨partition, moved⟩, ready⟩, counted⟩ := spec
    exact kept.moved moved ready counted

theorem kept_of_run {max : Nat} (run : Run Step (new max) history registry) :
    Kept history registry :=
  run.invariant (kept_new max) fun _ _ _ _ _ kept step => kept.step step

/-- Replaying the records, as any log stores them, arrives at the live agents. -/
def Reconstructs (registry : Registry) : Prop :=
  ∀ (N : Nat) (hasher : ChainHasher) (log : WitnessLog),
    replay (log.produced N hasher registry.writes) = registry.manager.stateOf

/-- The call activates no agent that is initializing. -/
def Dormant (here : Registry) (label : AgentRequest × Except RvmError Unit) : Prop :=
  label.1.isActivate = true → here.manager.stateOf label.1.agent ≠ some .initializing

theorem Kept.activates_iff (kept : Kept history here)
    {label : AgentRequest × Except RvmError Unit} (step : Step here label next) :
    (label.2.isOk && label.1.isActivate) = false ↔ Dormant here label := by
  obtain ⟨request, outcome⟩ := label
  have spec := perform_spec kept.distinct request
  rw [Ensures, show (perform request).runFrom here = _ from step] at spec
  cases outcome with
  | error reason => exact iff_of_true rfl spec.2
  | ok value =>
    refine (Bool.eq_false_iff.trans (forall_congr' fun activate => ?_))
    have ready := (spec.2 activate).resolve_right (kept.restored _)
    exact iff_of_false id fun other => other ready

theorem dormant_iff {max : Nat} (run : Run Step (new max) history registry) :
    activations history = 0 ↔ Run (Guarded Step Dormant) (new max) history registry := by
  induction run with
  | nil => exact iff_of_true rfl .nil
  | @snoc labels label here _ before step ih =>
    have last := (kept_of_run before).activates_iff step
    have split : activations (labels ++ [label]) = 0 ↔
        activations labels = 0 ∧ (label.2.isOk && label.1.isActivate) = false := by
      rw [activations, countP_append, Nat.add_eq_zero_iff, countP_singleton]
      cases label.2.isOk && label.1.isActivate <;> simp [activations]
    rw [split, ih, last]
    constructor
    · exact fun dormant => dormant.1.snoc ⟨step, dormant.2⟩
    · intro dormant
      obtain ⟨other, earlier, guarded⟩ := dormant.last
      obtain rfl : here = other := before.deterministic
        (fun _ _ _ _ left right => congrArg Prod.snd (Option.some.inj (left.symm.trans right)))
        (earlier.mono fun _ _ _ guarded => guarded.1)
      exact ⟨earlier, guarded.2⟩

/-- In every run live agents are distinct and a failed call changes nothing; the log reconstructs
them exactly when no call activates an agent that is initializing. -/
theorem lifecycleWitnessed {max : Nat} (run : Run Step (new max) history registry) :
    registry.manager.Distinct ∧ Counted registry.manager ∧
      (∀ request, (perform request).Ensures registry (fun _ _ => True)
        fun _ next => next = registry) ∧
      ((registry.writes.length = transitions history ∧ Reconstructs registry) ↔
        Run (Guarded Step Dormant) (new max) history registry) := by
  have kept := kept_of_run run
  refine ⟨kept.distinct, kept.counted, fun request =>
    (perform_spec kept.distinct request).mono (fun _ _ _ => trivial) fun _ _ same => same.1, ?_⟩
  rw [← dormant_iff run]
  have records := kept.records
  constructor
  · rintro ⟨complete, _⟩
    omega
  · intro inactive
    refine ⟨by omega, fun N hasher log => ?_⟩
    rw [replay_produced]
    funext id
    exact ((kept.lags id).resolve_right fun behind => by omega).symm

def respawned : List (AgentRequest × Except RvmError Unit) :=
  [(.spawn ⟨42, ⟨1⟩, 16⟩, .ok ()), (.suspend 42, .error .invalidPartitionState),
    (.terminate 42, .ok ()), (.activate 42, .error .partitionNotFound),
    (.spawn ⟨42, ⟨2⟩, 16⟩, .ok ())]

theorem lifecycleWitnessed_respawned : ∃ registry, Run Step (new 1) respawned registry ∧
    registry.writes.length = 3 ∧ registry.manager.stateOf 42 = some .initializing ∧
      Reconstructs registry := by
  have dormant : Run (Guarded Step Dormant) (new 1) respawned _ :=
    .cons ⟨rfl, nofun⟩ <| .cons ⟨rfl, nofun⟩ <| .cons ⟨rfl, nofun⟩ <| .cons ⟨rfl, fun _ => nofun⟩ <|
      .single ⟨rfl, nofun⟩
  have run := dormant.mono fun _ _ _ guarded => guarded.1
  exact ⟨_, run, rfl, rfl, ((lifecycleWitnessed run).2.2.2.mpr dormant).2⟩

def sampleSpawned : Registry :=
  ⟨⟨[some (.new 42 ⟨1⟩)], 1⟩, [.append (agentRecord .taskSpawn ⟨1⟩ 42)]⟩

theorem sampleSpawn : Step (new 1) (.spawn ⟨42, ⟨1⟩, 16⟩, .ok ()) sampleSpawned := rfl

/-- An agent spawned and activated is running; its log says that it is initializing. -/
theorem activationUnwitnessed : ∃ history registry,
    Run Step (new 1) history registry ∧ registry.manager.stateOf 42 = some .running ∧
      registry.writes.length = 1 ∧ transitions history = 2 ∧
      ∀ (N : Nat) (hasher : ChainHasher) (log : WitnessLog),
        replay (log.produced N hasher registry.writes) 42 = some .initializing := by
  have activated : Step sampleSpawned (.activate 42, .ok ())
    ⟨⟨[some ⟨42, .running, ⟨1⟩⟩], 1⟩, [.append (agentRecord .taskSpawn ⟨1⟩ 42)]⟩ := rfl
  refine ⟨_, _, (Run.single sampleSpawn).snoc activated, rfl, rfl, rfl, fun N hasher log => ?_⟩
  rw [replay_produced]
  rfl

end Registry

end Rvm.Wasm
