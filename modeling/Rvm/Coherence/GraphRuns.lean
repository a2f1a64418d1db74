import Rvm.Coherence.Adjacency

/-!
Owns the runs of the coherence graph's mutators: one call as a labelled step,
the condition under which an edge slot can be linked, that the representation
invariant holds in every state reached under it, and a run that leaves it.
-/

namespace Rvm.Coherence

open Foundation

inductive GraphCall where
  | addNode (id : PartitionId)
  | removeNode (id : PartitionId)
  | addEdge (source target : PartitionId) (weight : Nat)
  | updateWeight (edgeId : Nat) (delta : Int)
  | decayWeights (decayBp : Nat)
deriving DecidableEq, Repr

/-- What a successful call returns. -/
inductive GraphReply where
  | node (idx : Nat)
  | edge (idx : Nat)
  | done
  | pruned (count : Nat)
deriving DecidableEq, Repr

abbrev GraphOutcome := Except GraphError GraphReply

namespace CoherenceGraph

variable {maxNodes maxEdges : Nat} {graph next : CoherenceGraph}

def settled {α : Type} (graph : CoherenceGraph) (reply : α → GraphReply) :
    Except GraphError (α × CoherenceGraph) → GraphOutcome × CoherenceGraph
  | .ok (value, next) => (.ok (reply value), next)
  | .error e => (.error e, graph)

def apply (maxNodes maxEdges : Nat) (graph : CoherenceGraph) :
    GraphCall → Option (GraphOutcome × CoherenceGraph)
  | .addNode id => some (graph.settled .node (graph.addNode maxNodes id))
  | .removeNode id => (graph.removeNode maxNodes maxEdges id).map fun result =>
    graph.settled (fun _ => .done) (result.map fun next => ((), next))
  | .addEdge source target weight =>
    some (graph.settled .edge (graph.addEdge maxNodes maxEdges source target weight))
  | .updateWeight edgeId delta =>
    some (graph.settled (fun _ => .done)
      ((graph.updateWeight maxEdges edgeId delta).map fun next => ((), next)))
  | .decayWeights decayBp =>
    (graph.decayWeights maxEdges decayBp).map fun decayed => (.ok (.pruned decayed.2), decayed.1)

def Step (maxNodes maxEdges : Nat) (graph : CoherenceGraph) (label : GraphCall × GraphOutcome)
    (next : CoherenceGraph) : Prop :=
  graph.apply maxNodes maxEdges label.1 = some (label.2, next)

def freeSlot (maxEdges : Nat) (graph : CoherenceGraph) : Option Nat :=
  (List.range maxEdges).find? fun i => (graph.edges i).active = false

/-- An edge between known partitions does not go to the slot that the sentinel
names, or beyond. -/
def SlotFits (maxNodes maxEdges : Nat) (graph : CoherenceGraph)
    (label : GraphCall × GraphOutcome) : Prop :=
  match label.1 with
  | .addEdge source target _ =>
    (graph.findNode maxNodes source).isSome = true →
      (graph.findNode maxNodes target).isSome = true →
      ∀ slot, graph.freeSlot maxEdges = some slot → slot < invalid
  | _ => True

theorem freeSlot_eq_some {slot : Nat} (free : graph.freeSlot maxEdges = some slot) :
    slot < maxEdges ∧ graph.edgeActive slot = false ∧
      ∀ edge, edge < slot → graph.edgeActive edge = true := by
  obtain ⟨inactive, inside, before⟩ := List.find?_range_eq_some.mp free
  refine ⟨List.mem_range.mp inside, by simpa [edgeActive] using inactive, fun edge below => ?_⟩
  simpa [edgeActive] using before edge below

theorem addEdge_cases (graph : CoherenceGraph) (source target : PartitionId) (weight : Nat) :
    (∃ e, graph.addEdge maxNodes maxEdges source target weight = .error e) ∧
        ((graph.findNode maxNodes source).isSome = true →
          (graph.findNode maxNodes target).isSome = true → graph.freeSlot maxEdges = none) ∨
      ∃ fromIdx toIdx slot, graph.findNode maxNodes source = some fromIdx ∧
        graph.findNode maxNodes target = some toIdx ∧ graph.freeSlot maxEdges = some slot ∧
        graph.addEdge maxNodes maxEdges source target weight =
          .ok (asU16 slot, graph.linkEdge (asU16 slot) fromIdx toIdx weight) := by
  unfold addEdge
  cases graph.findNode maxNodes source with
  | none => exact .inl ⟨⟨_, rfl⟩, fun found => by cases found⟩
  | some fromIdx =>
    cases graph.findNode maxNodes target with
    | none => exact .inl ⟨⟨_, rfl⟩, fun _ found => by cases found⟩
    | some toIdx =>
      unfold allocEdge
      change _ ∨ ∃ _ _ slot, _ ∧ _ ∧ graph.freeSlot maxEdges = some slot ∧ _
      rw [← freeSlot]
      cases graph.freeSlot maxEdges with
      | none => exact .inl ⟨⟨_, rfl⟩, fun _ _ => rfl⟩
      | some slot => exact .inr ⟨fromIdx, toIdx, slot, rfl, rfl, rfl, rfl⟩

theorem sentinel_not_wellFormed {fromIdx toIdx weight : Nat} (inside : invalid < maxEdges)
    (formed : WellFormed maxNodes maxEdges (graph.linkEdge invalid fromIdx toIdx weight)) :
    False := by
  have active := (@linkEdge_linked graph invalid fromIdx toIdx weight).active
  obtain ⟨cells, threads, _, members⟩ := formed.lists _ (formed.source invalid inside active).1
  exact threads.ne_stop ((members invalid).mpr ⟨inside, active, rfl⟩) rfl

theorem Sound.addEdge (sound : Sound maxNodes maxEdges graph) {source target : PartitionId}
    {weight : Nat} {outcome : GraphOutcome}
    (step : Step maxNodes maxEdges graph (.addEdge source target weight, outcome) next) :
    (SlotFits maxNodes maxEdges graph (.addEdge source target weight, outcome) →
        Sound maxNodes maxEdges next) ∧
      (WellFormed maxNodes maxEdges next →
        SlotFits maxNodes maxEdges graph (.addEdge source target weight, outcome)) := by
  obtain settledEq := Option.some.inj step
  rcases @addEdge_cases maxNodes maxEdges graph source target weight with
    ⟨⟨e, failed⟩, full⟩ | ⟨fromIdx, toIdx, slot, fromFound, toFound, free, added⟩
  · rw [failed] at settledEq
    obtain rfl := congrArg Prod.snd settledEq
    refine ⟨fun _ => sound, fun _ known alsoKnown slot free => ?_⟩
    rw [full known alsoKnown] at free
    cases free
  · rw [added] at settledEq
    obtain rfl := congrArg Prod.snd settledEq
    obtain ⟨inside, inactive, before⟩ := freeSlot_eq_some free
    have small : slot ≤ invalid := by
      by_contra beyond
      exact absurd (sound.below invalid (by omega) (before invalid (by omega))) (lt_irrefl _)
    have index : asU16 slot = slot := Nat.mod_eq_of_lt (Nat.lt_succ_of_le small)
    obtain ⟨fromInside, fromHere⟩ := sound.findNode_some fromFound
    obtain ⟨toInside, toHere⟩ := sound.findNode_some toFound
    constructor
    · intro fits
      have below := fits (fromFound ▸ rfl) (toFound ▸ rfl) slot free
      rw [settled, index]
      exact sound.link (linkEdge_linked _ _ _ _) inside inactive below fromInside
        (by rw [nodeActive, fromHere]; rfl) toInside (by rw [nodeActive, toHere]; rfl)
    · intro formed _ _ other otherFree
      obtain rfl := Option.some.inj (free.symm.trans otherFree)
      refine lt_of_le_of_ne small fun last => ?_
      rw [settled, index, last] at formed
      exact sentinel_not_wellFormed (last ▸ inside) formed

theorem Sound.returns (sound : Sound maxNodes maxEdges graph) (call : GraphCall) :
    graph.apply maxNodes maxEdges call ≠ none := by
  cases call with
  | addNode | addEdge | updateWeight => exact Option.some_ne_none _
  | removeNode id =>
    rcases sound.removeNode id with ⟨_, removed⟩ | ⟨_, _, _, removed, _⟩ <;>
    · rw [apply, removed]
      exact Option.some_ne_none _
  | decayWeights decayBp =>
    obtain ⟨result, decayed, _⟩ := sound.decayWeights decayBp
    rw [apply, decayed]
    exact Option.some_ne_none _

theorem Sound.step {label : GraphCall × GraphOutcome} (sound : Sound maxNodes maxEdges graph)
    (step : Step maxNodes maxEdges graph label next) :
    (SlotFits maxNodes maxEdges graph label → Sound maxNodes maxEdges next) ∧
      (WellFormed maxNodes maxEdges next → SlotFits maxNodes maxEdges graph label) := by
  obtain ⟨call, outcome⟩ := label
  cases call with
  | addEdge source target weight => exact sound.addEdge step
  | addNode id =>
    refine ⟨fun _ => ?_, fun _ => trivial⟩
    obtain settledEq := Option.some.inj step
    cases added : graph.addNode maxNodes id with
    | error e =>
      rw [added] at settledEq
      obtain rfl := congrArg Prod.snd settledEq
      exact sound
    | ok result =>
      rw [added] at settledEq
      obtain rfl := congrArg Prod.snd settledEq
      exact sound.addNode added
  | removeNode id =>
    refine ⟨fun _ => ?_, fun _ => trivial⟩
    rw [Step, apply] at step
    rcases sound.removeNode id with ⟨_, removed⟩ | ⟨_, after, _, removed, afterSound, _⟩
    · rw [removed] at step
      obtain rfl := congrArg Prod.snd (Option.some.inj step)
      exact sound
    · rw [removed] at step
      obtain rfl := congrArg Prod.snd (Option.some.inj step)
      exact afterSound
  | updateWeight edgeId delta =>
    refine ⟨fun _ => ?_, fun _ => trivial⟩
    obtain settledEq := Option.some.inj step
    cases updated : graph.updateWeight maxEdges edgeId delta with
    | error e =>
      rw [updated] at settledEq
      obtain rfl := congrArg Prod.snd settledEq
      exact sound
    | ok after =>
      rw [updated] at settledEq
      obtain rfl := congrArg Prod.snd settledEq
      exact (sound.updateWeight updated).2
  | decayWeights decayBp =>
    refine ⟨fun _ => ?_, fun _ => trivial⟩
    obtain ⟨result, decayed, afterSound, _⟩ := sound.decayWeights decayBp
    rw [Step, apply, decayed] at step
    obtain rfl := congrArg Prod.snd (Option.some.inj step)
    exact afterSound

theorem sound_new (maxNodes maxEdges : Nat) : Sound maxNodes maxEdges .new where
  lists _ _ := ⟨[], rfl, List.nodup_nil,
    fun _ => iff_of_false List.not_mem_nil fun ⟨_, active, _⟩ => Bool.noConfusion active⟩
  source _ _ active := Bool.noConfusion active
  target _ _ active := Bool.noConfusion active
  nodeCount := occupied_none.symm
  edgeCount := occupied_none.symm
  ids _ _ _ _ _ isSome := by cases isSome
  below _ _ active := Bool.noConfusion active

theorem sound_run {history : List (GraphCall × GraphOutcome)}
    (run : Run (Guarded (Step maxNodes maxEdges) (SlotFits maxNodes maxEdges)) .new history graph) :
    Sound maxNodes maxEdges graph :=
  run.stateInvariant (sound_new maxNodes maxEdges) fun _ _ _ sound guarded =>
    (sound.step guarded.1).1 guarded.2

/-- While edge slots fit, every reached graph is well formed and every call returns; a call that
breaks this is one whose slot does not fit. -/
theorem representation {history : List (GraphCall × GraphOutcome)}
    (run : Run (Guarded (Step maxNodes maxEdges) (SlotFits maxNodes maxEdges)) .new history graph) :
    WellFormed maxNodes maxEdges graph ∧
      (∀ id, graph.findNode maxNodes id = graph.scanNode maxNodes id) ∧
      (∀ call, graph.apply maxNodes maxEdges call ≠ none) ∧
      ∀ label next, Step maxNodes maxEdges graph label next →
        (WellFormed maxNodes maxEdges next ↔ SlotFits maxNodes maxEdges graph label) := by
  have sound := sound_run run
  refine ⟨sound.toWellFormed, sound.findNode_eq, sound.returns, fun label next step => ?_⟩
  obtain ⟨kept, exactly⟩ := sound.step step
  exact ⟨exactly, fun fits => (kept fits).toWellFormed⟩

def loopHistory : List (GraphCall × GraphOutcome) :=
  [(.addNode ⟨1⟩, .ok (.node 0)), (.addEdge ⟨1⟩ ⟨1⟩ 7, .ok (.edge 0)),
    (.removeNode ⟨1⟩, .ok .done)]

theorem representation_loop :
    ∃ graph, Run (Step 2 2) .new loopHistory graph ∧ WellFormed 2 2 graph := by
  have removed : Run (Guarded (Step 2 2) (SlotFits 2 2)) .new loopHistory _ :=
    .cons ⟨rfl, trivial⟩ <|
      .cons ⟨rfl, fun _ _ _ free => Nat.lt_of_lt_of_le (freeSlot_eq_some free).1 (by decide)⟩ <|
      .single ⟨rfl, trivial⟩
  exact ⟨_, removed.mono fun _ _ _ guarded => guarded.1, (representation removed).1⟩

/-- A graph with one node in which exactly the first slots hold edges. -/
structure Filled (maxEdges count : Nat) (graph : CoherenceGraph) : Prop where
  node : (graph.nodes 0).partition = some ⟨1⟩
  edges : ∀ edge, edge < maxEdges → (graph.edgeActive edge = true ↔ edge < count)

theorem Filled.freeSlot {count : Nat} (filled : Filled maxEdges count graph)
    (room : count < maxEdges) : graph.freeSlot maxEdges = some count := by
  apply List.find?_range_eq_some.mpr
  refine ⟨?_, List.mem_range.mpr room, fun edge below => ?_⟩
  · have notActive : graph.edgeActive count ≠ true := fun active =>
      absurd ((filled.edges count room).mp active) (lt_irrefl count)
    simpa [edgeActive] using notActive
  · have active := (filled.edges edge (Nat.lt_trans below room)).mpr below
    simpa [edgeActive] using active

theorem Filled.linkEdge {count slot after : Nat} (filled : Filled maxEdges count graph)
    (weight : Nat) (reaches : ∀ edge, edge < after ↔ edge = slot ∨ edge < count) :
    Filled maxEdges after (graph.linkEdge slot 0 0 weight) where
  node := filled.node
  edges edge inside := by
    change (Function.update graph.edges slot _ edge).active = true ↔ _
    rw [reaches]
    by_cases here : edge = slot
    · rw [here, Function.update_self]
      exact iff_of_true rfl (.inl rfl)
    · rw [Function.update_of_ne here, or_iff_right here]
      exact filled.edges edge inside

theorem Filled.addLoop {count slot : Nat} (filled : Filled maxEdges count graph) (weight : Nat)
    (room : count < maxEdges) (index : asU16 count = slot) :
    Step 1 maxEdges graph (.addEdge ⟨1⟩ ⟨1⟩ weight, .ok (.edge slot))
      (graph.linkEdge slot 0 0 weight) := by
  have found : graph.findNode 1 ⟨1⟩ = some 0 := by
    have scanned : (List.range 1).find? (fun i => (graph.nodes i).partition = some ⟨1⟩) = some 0 := by
      simp [List.range_succ, filled.node]
    rw [findNode, scanned]
    cases direct : (graph.idToNode (hashOf ⟨1⟩)).filter fun i =>
        i < 1 ∧ (graph.nodes i).partition = some ⟨1⟩ with
    | none => rfl
    | some i =>
      have below : i < 1 ∧ (graph.nodes i).partition = some ⟨1⟩ := by
        simpa using (Option.filter_eq_some_iff.mp direct).2
      rw [Nat.lt_one_iff.mp below.1]
      rfl
  have free := filled.freeSlot room
  rcases @addEdge_cases 1 maxEdges graph ⟨1⟩ ⟨1⟩ weight with
    ⟨_, full⟩ | ⟨fromIdx, toIdx, slot, fromFound, toFound, slotFree, added⟩
  · rw [full (found ▸ rfl) (found ▸ rfl)] at free
    cases free
  · obtain rfl := Option.some.inj (found.symm.trans fromFound)
    obtain rfl := Option.some.inj (found.symm.trans toFound)
    obtain rfl := Option.some.inj (free.symm.trans slotFree)
    rw [Step, apply, added, index]
    rfl

theorem exists_filled (count : Nat) (fits : count ≤ invalid) (room : count ≤ maxEdges) :
    ∃ history graph, Run (Guarded (Step 1 maxEdges) (SlotFits 1 maxEdges)) .new history graph ∧
      Filled maxEdges count graph := by
  induction count with
  | zero =>
    have added : Run (Guarded (Step 1 maxEdges) (SlotFits 1 maxEdges)) .new
        [(.addNode ⟨1⟩, .ok (.node 0))] _ := .single ⟨rfl, trivial⟩
    exact ⟨_, _, added, rfl, fun _ _ =>
      iff_of_false (fun active => Bool.noConfusion active) (Nat.not_lt_zero _)⟩
  | succ count ih =>
    obtain ⟨history, graph, run, filled⟩ := ih (by omega) (by omega)
    have step := filled.addLoop 0 room (Nat.mod_eq_of_lt (Nat.lt_succ_of_lt fits))
    refine ⟨_, _, run.snoc ⟨step, fun _ _ slot free => ?_⟩, filled.linkEdge 0 fun edge => by omega⟩
    obtain rfl := Option.some.inj ((filled.freeSlot room).symm.trans free)
    exact fits

/-- With an edge array of `65536` slots the last one is linked under the
sentinel's index, and the edge is on no list. -/
theorem representation_lost :
    ∃ history graph, Run (Step 1 65536) .new history graph ∧ ¬WellFormed 1 65536 graph := by
  obtain ⟨history, graph, run, filled⟩ :=
    @exists_filled 65536 invalid (le_refl invalid) (by decide)
  have step := filled.addLoop 0 (by decide) (show asU16 invalid = invalid by decide)
  exact ⟨_, _, (run.mono fun _ _ _ guarded => guarded.1).snoc step,
    sentinel_not_wellFormed (by decide)⟩

end CoherenceGraph

end Rvm.Coherence
