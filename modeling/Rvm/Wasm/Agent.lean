import Rvm.Foundation.Call
import Rvm.Types.Capability
import Rvm.Witness.Journal

/-!
Owns the registry of WASM agents of `rvm-wasm/src/agent.rs`: a fixed table of slots, the
agent state machine with its witness records, and what each transition does to the live
agents.
-/

namespace Rvm.Wasm

open Foundation Foundation.Call Witness List

abbrev AgentId := Nat

inductive AgentState where
  | initializing | running | suspended | migrating | hibernated | reconstructing | terminated
deriving DecidableEq, Repr

structure AgentConfig where
  badge : Nat
  partitionId : PartitionId
  maxMemoryPages : Nat

structure Agent where
  id : AgentId
  state : AgentState
  partitionId : PartitionId
deriving DecidableEq, Repr

def Agent.new (id : AgentId) (partitionId : PartitionId) : Agent := ⟨id, .initializing, partitionId⟩

/-- The slots, as many as the registry has room for, and the number of agents. -/
structure AgentManager where
  agents : List (Option Agent)
  count : Nat
deriving DecidableEq, Repr

namespace AgentManager

def new (max : Nat) : AgentManager := ⟨List.replicate max none, 0⟩

def holds (id : AgentId) : Option Agent → Bool
  | some agent => agent.id == id && agent.state != .terminated
  | none => false

def get (manager : AgentManager) (id : AgentId) : Option Agent :=
  (manager.agents.find? (holds id)).join

def replace (id : AgentId) (value : Option Agent) : List (Option Agent) → List (Option Agent)
  | [] => []
  | slot :: rest => if holds id slot then value :: rest else slot :: replace id value rest

/-- Write the first empty slot; none where there is no such slot. -/
def fill (agent : Agent) : List (Option Agent) → Option (List (Option Agent))
  | [] => none
  | none :: rest => some (some agent :: rest)
  | some held :: rest => (fill agent rest).map (some held :: ·)

end AgentManager

/-- A registry and the log that its transitions are recorded in. -/
structure Registry where
  manager : AgentManager
  writes : List WitnessCall

abbrev RegistryCall (α : Type) := Call RvmError Registry α

namespace Registry

def agentRecord (action : ActionKind) (partition : PartitionId) (agent : AgentId) : WitnessRecord :=
  { WitnessRecord.zeroed with
    actionKind := action.asU8
    actorPartitionId := partition.asU32
    targetObjectId := agent
    proofTier := 1 }

def emitAgentWitness (action : ActionKind) (partition : PartitionId) (agent : AgentId) :
    RegistryCall Unit :=
  modify fun here =>
    { here with writes := here.writes ++ [.append (agentRecord action partition agent)] }

def spawn (config : AgentConfig) : RegistryCall AgentId := do
  let here ← get
  throwIf (here.manager.count ≥ here.manager.agents.length) .resourceLimitExceeded
  let id := config.badge
  throwIf (here.manager.agents.any (AgentManager.holds id)) .internalError
  let agent := Agent.new id config.partitionId
  let agents ← orThrow (AgentManager.fill agent here.manager.agents) .internalError
  set { here with manager := ⟨agents, here.manager.count + 1⟩ }
  emitAgentWitness .taskSpawn config.partitionId id
  return id

theorem spawn_appends (config : AgentConfig) (here : Registry) :
    (spawn config).Ensures here (fun _ next => here.writes <+: next.writes)
      fun _ next => here.writes <+: next.writes := by
  simp only [spawn, emitAgentWitness, ensures_bind, ensures_get, ensures_set, ensures_modify,
    ensures_throwIf, ensures_orThrow, ensures_pure]
  simp

theorem spawn_refused (config : AgentConfig) (here : Registry) :
    (spawn config).Ensures here (fun _ _ => True) fun _ next => next.manager = here.manager := by
  simp only [spawn, emitAgentWitness, ensures_bind, ensures_get, ensures_set, ensures_modify,
    ensures_throwIf, ensures_orThrow, ensures_pure]
  simp

def setState (agent : Agent) (state : AgentState) : RegistryCall Unit :=
  modify fun here => { here with manager := { here.manager with
    agents := AgentManager.replace agent.id (some { agent with state := state })
      here.manager.agents } }

def activate (id : AgentId) : RegistryCall Unit := do
  let here ← get
  let agent ← orThrow (here.manager.get id) .partitionNotFound
  throwIf (agent.state ≠ .initializing ∧ agent.state ≠ .reconstructing) .invalidPartitionState
  setState agent .running

def suspend (id : AgentId) : RegistryCall Unit := do
  let here ← get
  let agent ← orThrow (here.manager.get id) .partitionNotFound
  throwIf (agent.state ≠ .running) .invalidPartitionState
  setState agent .suspended
  emitAgentWitness .partitionSuspend agent.partitionId id

def resume (id : AgentId) : RegistryCall Unit := do
  let here ← get
  let agent ← orThrow (here.manager.get id) .partitionNotFound
  throwIf (agent.state ≠ .suspended) .invalidPartitionState
  setState agent .running
  emitAgentWitness .partitionResume agent.partitionId id

/-- The slot is emptied for reuse. -/
def terminate (id : AgentId) : RegistryCall Unit := do
  let here ← get
  let agent ← orThrow (here.manager.get id) .partitionNotFound
  set { here with manager := ⟨AgentManager.replace id none here.manager.agents,
    here.manager.count - 1⟩ }
  emitAgentWitness .taskTerminate agent.partitionId id

end Registry

namespace AgentManager

/-! ### The states as a map -/

variable {id other : AgentId} {agent fresh : Agent} {value slot : Option Agent}
  {slots filled : List (Option Agent)} {manager : AgentManager}

/-! ### Slots -/

@[simp]
theorem holds_some : holds id (some agent) = true ↔ agent.id = id ∧ agent.state ≠ .terminated := by
  simp [holds]

theorem exists_of_holds (held : holds id slot = true) :
    ∃ agent, slot = some agent ∧ agent.id = id ∧ agent.state ≠ .terminated := by
  cases slot with
  | none => cases held
  | some agent => exact ⟨agent, rfl, holds_some.mp held⟩

theorem not_holds_other (different : other ≠ id) (held : holds id slot = true) :
    holds other slot = false := by
  obtain ⟨agent, rfl, same, _⟩ := exists_of_holds held
  rw [Bool.eq_false_iff, Ne, holds_some]
  exact fun both => different (both.1.symm.trans same)

theorem slots_of_held (found : ∃ slot ∈ slots, holds id slot = true) :
    ∃ before held after, slots = before ++ held :: after ∧ holds id held = true ∧
      ∀ value, replace id value slots = before ++ value :: after := by
  induction slots with
  | nil => simp at found
  | cons slot rest ih =>
    by_cases here : holds id slot = true
    · exact ⟨[], slot, rest, rfl, here, fun value => if_pos here⟩
    · obtain ⟨before, held, after, rfl, holding, written⟩ := ih (by simpa [here] using found)
      exact ⟨slot :: before, held, after, rfl, holding, fun value => by
        rw [replace, if_neg here, written, cons_append]⟩

theorem slots_of_filled (placed : fill fresh slots = some filled) :
    ∃ before after, slots = before ++ none :: after ∧ filled = before ++ some fresh :: after := by
  induction slots generalizing filled with
  | nil => cases placed
  | cons slot rest ih =>
    cases slot with
    | none => exact ⟨[], rest, rfl, (Option.some.inj placed).symm⟩
    | some held =>
      obtain ⟨later, laterPlaced, rfl⟩ := Option.map_eq_some_iff.mp placed
      obtain ⟨before, after, rfl, rfl⟩ := ih laterPlaced
      exact ⟨some held :: before, after, rfl, rfl⟩

/-! ### Looking up -/

def lookup (slots : List (Option Agent)) (id : AgentId) : Option Agent :=
  (slots.find? (holds id)).join

theorem find?_eq_none : slots.find? (holds id) = none ↔ slots.countP (holds id) = 0 := by
  rw [List.find?_eq_none, countP_eq_zero]

theorem lookup_eq_none : lookup slots id = none ↔ slots.countP (holds id) = 0 := by
  rw [← find?_eq_none, lookup]
  cases found : slots.find? (holds id) with
  | none => simp
  | some slot =>
    obtain ⟨agent, rfl, _⟩ := exists_of_holds (List.find?_some found)
    simp

theorem lookup_holds (found : lookup slots id = some agent) :
    holds id (some agent) = true ∧ ∃ slot ∈ slots, holds id slot = true := by
  have first : slots.find? (holds id) = some (some agent) := Option.join_eq_some_iff.mp found
  exact ⟨List.find?_some first, _, mem_of_find?_eq_some first, List.find?_some first⟩

/-! ### States of the live agents -/

/-- No two live agents have one identifier. -/
def Distinct (manager : AgentManager) : Prop :=
  ∀ id, manager.agents.countP (holds id) ≤ 1

def stateOf (manager : AgentManager) (id : AgentId) : Option AgentState :=
  (manager.get id).map (·.state)

structure Changed (here next : AgentManager) (id : AgentId) (state : Option AgentState) : Prop where
  distinct : next.Distinct
  states : ∀ other, next.stateOf other = if other = id then state else here.stateOf other

theorem Changed.trans {here middle next : AgentManager} {first last : Option AgentState}
    (before : Changed here middle id first) (after : Changed middle next id last) :
    Changed here next id last where
  distinct := after.distinct
  states other := by
    rw [after.states]
    split
    · rfl
    · rename_i different
      rw [before.states, if_neg different]

theorem distinct_new (max : Nat) : (new max).Distinct := by
  intro id
  rw [new, countP_replicate]
  exact Nat.zero_le 1

theorem stateOf_new (max : Nat) (id : AgentId) : (new max).stateOf id = none := by
  have absent : lookup (List.replicate max none) id = none := by
    rw [lookup_eq_none, countP_replicate]
    rfl
  show (lookup (List.replicate max none) id).map _ = none
  rw [absent]
  rfl

variable {here next : AgentManager} {state : AgentState} {count : Nat}

/-- One slot is written; no other slot holds the identifier, and it held no other. -/
theorem changed_slot {before after : List (Option Agent)} {old : Option Agent}
    (distinct : here.Distinct) (agents : here.agents = before ++ old :: after)
    (alone : before.countP (holds id) + after.countP (holds id) = 0)
    (own : ∀ other, other ≠ id → holds other old = false ∧ holds other value = false) :
    Changed here ⟨before ++ value :: after, count⟩ id
      ((if holds id value then value else none).map (·.state)) := by
  constructor
  · intro other
    have kept := distinct other
    rw [agents, countP_append, countP_cons] at kept
    show (before ++ value :: after).countP (holds other) ≤ 1
    rw [countP_append, countP_cons]
    by_cases same : other = id
    · rw [same]
      split <;> omega
    · rw [(own other same).1] at kept
      rw [(own other same).2]
      exact kept
  · intro other
    simp only [stateOf, get, agents, List.find?_append, List.find?_cons]
    by_cases same : other = id
    · rw [same, find?_eq_none.mpr (by omega), find?_eq_none.mpr (by omega), if_pos rfl]
      cases holds id value <;> simp
    · rw [(own other same).1, (own other same).2, if_neg same]

theorem changed_written (distinct : here.Distinct) (found : here.get id = some agent)
    (own : ∀ other, other ≠ id → holds other value = false) :
    Changed here ⟨replace id value here.agents, count⟩ id
      ((if holds id value then value else none).map (·.state)) := by
  obtain ⟨before, held, after, agents, holding, written⟩ := slots_of_held (lookup_holds found).2
  have most := distinct id
  rw [agents, countP_append, countP_cons, if_pos holding] at most
  rw [written]
  exact changed_slot distinct agents (by omega) fun other different =>
    ⟨not_holds_other different holding, own other different⟩

theorem changed_replace (distinct : here.Distinct) (found : here.get id = some agent)
    (alive : state ≠ .terminated) :
    Changed here ⟨replace id (some { agent with state := state }) here.agents, count⟩ id
      (some state) := by
  have own : holds id (some { agent with state := state }) = true :=
    holds_some.mpr ⟨(holds_some.mp (lookup_holds found).1).1, alive⟩
  have changed := @changed_written id agent (some { agent with state := state }) here count
    distinct found fun other different => not_holds_other different own
  rwa [if_pos own] at changed

theorem changed_remove (distinct : here.Distinct) (found : here.get id = some agent) :
    Changed here ⟨replace id none here.agents, count⟩ id none :=
  @changed_written id agent none here count distinct found fun _ _ => rfl

theorem changed_fill (distinct : here.Distinct) (placed : fill fresh here.agents = some filled)
    (absent : here.get fresh.id = none) (alive : fresh.state ≠ .terminated) :
    Changed here ⟨filled, count⟩ fresh.id (some fresh.state) := by
  have own : holds fresh.id (some fresh) = true := holds_some.mpr ⟨rfl, alive⟩
  obtain ⟨before, after, agents, rfl⟩ := slots_of_filled placed
  have none := lookup_eq_none.mp absent
  rw [agents, countP_append, countP_cons] at none
  have changed := @changed_slot fresh.id (some fresh) here count before after _ distinct agents
    (by omega) fun other different => ⟨rfl, not_holds_other different own⟩
  rwa [if_pos own] at changed

end AgentManager

/-! ### The transitions -/

namespace Registry

open AgentManager

variable {here : Registry} {id : AgentId}

structure Moved (here next : Registry) (id : AgentId) (state : Option AgentState)
    (recorded : List WitnessCall) : Prop where
  changed : Changed here.manager next.manager id state
  writes : next.writes = here.writes ++ recorded

variable {manager : AgentManager} {agent : Agent} {target : AgentState}

theorem get_id (found : manager.get id = some agent) : agent.id = id :=
  (holds_some.mp (lookup_holds found).1).1

theorem spawn_spec (distinct : here.manager.Distinct) (config : AgentConfig) :
    (spawn config).Ensures here
      (fun id next => id = config.badge ∧ here.manager.stateOf id = none ∧
        Moved here next id (some .initializing)
          [.append (agentRecord .taskSpawn config.partitionId id)])
      fun _ next => next = here := by
  unfold spawn emitAgentWitness
  simp only [ensures_bind, ensures_get, ensures_throwIf, ensures_orThrow, ensures_set,
    ensures_modify, ensures_pure]
  refine ⟨fun _ => trivial, fun _ => ⟨fun _ => trivial, fun fresh =>
    ⟨fun filled placed => ?_, fun _ => trivial⟩⟩⟩
  have absent : here.manager.get config.badge = none := by
    refine lookup_eq_none.mpr (countP_eq_zero.mpr fun slot member held => fresh ?_)
    exact any_eq_true.mpr ⟨slot, member, held⟩
  have unknown : here.manager.stateOf config.badge = none := by
    rw [stateOf, absent]
    rfl
  exact ⟨trivial, unknown, changed_fill distinct placed absent (by simp [Agent.new]), rfl⟩

theorem stateOf_found (found : manager.get id = some agent) :
    manager.stateOf id = some agent.state := by
  rw [stateOf, found]
  rfl

theorem stateOf_absent (absent : manager.get id = none) : manager.stateOf id = none := by
  rw [stateOf, absent]
  rfl

def withState (here : Registry) (agent : Agent) (state : AgentState) : AgentManager :=
  { here.manager with
    agents := AgentManager.replace agent.id (some { agent with state := state })
      here.manager.agents }

theorem activate_cases (here : Registry) (id : AgentId) :
    (activate id).Ensures here
      (fun _ next => ∃ agent, here.manager.get id = some agent ∧
        (here.manager.stateOf id = some .initializing ∨
          here.manager.stateOf id = some .reconstructing) ∧
        next = ⟨here.withState agent .running, here.writes⟩)
      fun _ next => next = here ∧ here.manager.stateOf id ≠ some .initializing ∧
        here.manager.stateOf id ≠ some .reconstructing := by
  unfold activate setState
  simp only [ensures_bind, ensures_get, ensures_throwIf, ensures_orThrow, ensures_modify]
  constructor
  · intro agent found
    rw [stateOf_found found]
    constructor
    · rintro ⟨notInitializing, notReconstructing⟩
      exact ⟨trivial, fun same => notInitializing (Option.some.inj same),
        fun same => notReconstructing (Option.some.inj same)⟩
    · intro ready
      refine ⟨agent, found, ?_, rfl⟩
      by_cases initializing : agent.state = .initializing
      · exact Or.inl (congrArg some initializing)
      · exact Or.inr (congrArg some (not_not.mp fun other => ready ⟨initializing, other⟩))
  · intro absent
    rw [stateOf_absent absent]
    simp

theorem activate_spec (distinct : here.manager.Distinct) (id : AgentId) :
    (activate id).Ensures here
      (fun _ next => (here.manager.stateOf id = some .initializing ∨
        here.manager.stateOf id = some .reconstructing) ∧ Moved here next id (some .running) [])
      fun _ next => next = here ∧ here.manager.stateOf id ≠ some .initializing := by
  apply (activate_cases here id).mono
  · rintro _ _ ⟨agent, found, ready, rfl⟩
    obtain rfl := get_id found
    exact ⟨ready, changed_replace distinct found (by simp), (append_nil _).symm⟩
  · exact fun _ _ refused => ⟨refused.1, refused.2.1⟩

theorem transition_exact (here : Registry) (id : AgentId) {start : AgentState}
    {action : ActionKind} :
    (do
      let here ← get
      let agent ← orThrow (here.manager.get id) RvmError.partitionNotFound
      throwIf (agent.state ≠ start) RvmError.invalidPartitionState
      setState agent target
      emitAgentWitness action agent.partitionId id : RegistryCall Unit).Ensures here
      (fun _ next => ∃ agent, here.manager.get id = some agent ∧ agent.state = start ∧
        next = ⟨here.withState agent target,
          here.writes ++ [.append (agentRecord action agent.partitionId id)]⟩)
      fun _ next => next = here ∧ here.manager.stateOf id ≠ some start := by
  unfold setState emitAgentWitness
  simp only [ensures_bind, ensures_get, ensures_throwIf, ensures_orThrow, ensures_modify]
  constructor
  · intro agent found
    rw [stateOf_found found]
    constructor
    · intro other
      exact ⟨trivial, fun same => other (Option.some.inj same)⟩
    · intro same
      exact ⟨agent, found, not_not.mp same, rfl⟩
  · intro absent
    rw [stateOf_absent absent]
    simp

theorem terminate_exact (here : Registry) (id : AgentId) :
    (terminate id).Ensures here
      (fun _ next => ∃ agent, here.manager.get id = some agent ∧
        next = ⟨⟨AgentManager.replace id none here.manager.agents, here.manager.count - 1⟩,
          here.writes ++ [.append (agentRecord .taskTerminate agent.partitionId id)]⟩)
      fun _ next => next = here ∧ here.manager.stateOf id = none := by
  unfold terminate emitAgentWitness
  simp only [ensures_bind, ensures_get, ensures_orThrow, ensures_set, ensures_modify]
  exact ⟨fun agent found => ⟨agent, found, rfl⟩, fun absent => ⟨trivial, stateOf_absent absent⟩⟩

theorem moved_withState (distinct : here.manager.Distinct)
    (found : here.manager.get id = some agent) (alive : target ≠ .terminated)
    (record : WitnessRecord) :
    Moved here ⟨here.withState agent target, here.writes ++ [.append record]⟩ id (some target)
      [.append record] := by
  obtain rfl := get_id found
  exact ⟨changed_replace distinct found alive, rfl⟩

theorem suspend_spec (distinct : here.manager.Distinct) (id : AgentId) :
    (suspend id).Ensures here
      (fun _ next => here.manager.stateOf id = some .running ∧
        ∃ record, Moved here next id (some .suspended) [.append record])
      fun _ next => next = here ∧ here.manager.stateOf id ≠ some .running := by
  apply (transition_exact here id).weaken
  rintro _ _ ⟨agent, found, running, rfl⟩
  rw [stateOf_found found, running]
  exact ⟨rfl, _, moved_withState distinct found (by decide) _⟩

theorem resume_spec (distinct : here.manager.Distinct) (id : AgentId) :
    (resume id).Ensures here
      (fun _ next => here.manager.stateOf id = some .suspended ∧
        ∃ record, Moved here next id (some .running) [.append record])
      fun _ next => next = here ∧ here.manager.stateOf id ≠ some .suspended := by
  apply (transition_exact here id).weaken
  rintro _ _ ⟨agent, found, suspended, rfl⟩
  rw [stateOf_found found, suspended]
  exact ⟨rfl, _, moved_withState distinct found (by decide) _⟩

theorem terminate_spec (distinct : here.manager.Distinct) (id : AgentId) :
    (terminate id).Ensures here
      (fun _ next => here.manager.stateOf id ≠ none ∧
        ∃ record, Moved here next id none [.append record])
      fun _ next => next = here ∧ here.manager.stateOf id = none := by
  apply (terminate_exact here id).weaken
  rintro _ _ ⟨agent, found, rfl⟩
  rw [stateOf_found found]
  exact ⟨nofun, _, changed_remove distinct found, rfl⟩

end Registry

end Rvm.Wasm
