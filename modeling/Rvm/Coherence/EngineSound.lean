import Rvm.Coherence.Engine
import Rvm.Coherence.GraphRuns

/-!
Owns what the operations of the coherence engine do to its graph: on a sound graph each of them
returns and leaves a sound graph, and only registering and removing a partition change which
partitions have a node.
-/

namespace Rvm.Coherence

namespace CoherenceGraph

variable {maxNodes maxEdges : Nat} {graph next : CoherenceGraph}

def SameNodes (graph next : CoherenceGraph) : Prop :=
  ∀ node, (next.nodes node).partition = (graph.nodes node).partition

theorem edgeTo_returns {toIdx fuel cur : Nat} {cells : List Nat}
    (threads : Foundation.Threads graph.successor invalid cur cells)
    (enough : cells.length < fuel) :
    ∃ found, graph.edgeTo maxEdges toIdx fuel cur = some found := by
  induction cells generalizing fuel cur with
  | nil =>
    cases fuel with
    | zero => cases enough
    | succ fuel =>
      refine ⟨none, ?_⟩
      rw [edgeTo, if_pos (.inl threads)]
  | cons head rest ih =>
    cases fuel with
    | zero => cases enough
    | succ fuel =>
      obtain ⟨rfl, _, later⟩ := threads
      rw [edgeTo]
      split
      · exact ⟨none, rfl⟩
      · split
        · exact ⟨some cur, rfl⟩
        · exact ih later (Nat.lt_of_succ_lt_succ enough)

theorem Sound.findDirectedEdge (sound : Sound maxNodes maxEdges graph)
    (source target : PartitionId) :
    ∃ found, graph.findDirectedEdge maxNodes maxEdges source target = some found := by
  unfold CoherenceGraph.findDirectedEdge
  split
  · rename_i fromIdx toIdx fromFound toFound
    split
    · exact ⟨none, rfl⟩
    · obtain ⟨cells, threads, bound, _⟩ := sound.list (sound.findNode_some fromFound).1
      exact edgeTo_returns threads (Nat.lt_succ_of_le bound)
  · exact ⟨none, rfl⟩

theorem Sound.addEdge_narrow (sound : Sound maxNodes maxEdges graph) (narrow : maxEdges ≤ invalid)
    {source target : PartitionId} {weight edgeId : Nat}
    (added : graph.addEdge maxNodes maxEdges source target weight = .ok (edgeId, next)) :
    Sound maxNodes maxEdges next ∧ SameNodes graph next := by
  have step : Step maxNodes maxEdges graph
      (.addEdge source target weight, .ok (.edge edgeId)) next := by
    rw [Step, apply, added]
    rfl
  refine ⟨(sound.addEdge step).1 fun _ _ slot free => ?_, ?_⟩
  · exact Nat.lt_of_lt_of_le (freeSlot_eq_some free).1 narrow
  · rcases @addEdge_cases maxNodes maxEdges graph source target weight with
      ⟨⟨e, failed⟩, _⟩ | ⟨fromIdx, toIdx, slot, _, _, _, linked⟩
    · rw [added] at failed
      cases failed
    · rw [added] at linked
      cases linked
      exact (linkEdge_linked _ _ _ _).partitions

end CoherenceGraph

namespace CoherenceEngine

variable {engine : CoherenceEngine}

def Sound (engine : CoherenceEngine) : Prop := engine.graph.Sound engineMaxNodes engineMaxEdges

def Absent (engine : CoherenceEngine) (id : PartitionId) : Prop :=
  ∀ node, node < engineMaxNodes → (engine.graph.nodes node).partition ≠ some id

theorem sound_new : Sound .new := CoherenceGraph.sound_new engineMaxNodes engineMaxEdges

theorem absent_of_sameNodes {after : CoherenceEngine} {id : PartitionId}
    (absent : engine.Absent id) (same : engine.graph.SameNodes after.graph) : after.Absent id := by
  intro node inside
  rw [same node]
  exact absent node inside

theorem Sound.addPartition (sound : engine.Sound) (id : PartitionId) :
    (engine.addPartition id).2.Sound ∧
      ∀ other, other ≠ id → engine.Absent other → (engine.addPartition id).2.Absent other := by
  unfold CoherenceEngine.addPartition
  cases added : engine.graph.addNode engineMaxNodes id with
  | error e =>
    cases e <;> exact ⟨sound, fun _ _ absent => absent⟩
  | ok result =>
    obtain ⟨slot, graph⟩ := result
    have placed := sound.addNode added
    obtain ⟨_, _, _, nodes, _⟩ := CoherenceGraph.addNode_cases added
    have elsewhere : ∀ other, other ≠ id → engine.Absent other → ∀ node, node < engineMaxNodes →
        (graph.nodes node).partition ≠ some other := by
      intro other apart absent node inside
      rw [nodes]
      by_cases here : node = slot
      · rw [here, Function.update_self]
        exact fun same => apart (Option.some.inj same).symm
      · rw [Function.update_of_ne here]
        exact absent node inside
    dsimp only
    split
    · exact ⟨placed, elsewhere⟩
    · exact ⟨placed, elsewhere⟩

theorem clearEntry_graph (id : PartitionId) : (engine.clearEntry id).graph = engine.graph := by
  unfold clearEntry
  split <;> rfl

theorem Sound.removePartition (sound : engine.Sound) (id : PartitionId) :
    ∃ result after, engine.removePartition id = some (result, after) ∧ after.Sound ∧
      after.Absent id ∧ ∀ other, engine.Absent other → after.Absent other := by
  unfold CoherenceEngine.removePartition
  rcases CoherenceGraph.Sound.removeNode sound id with
    ⟨missing, removed⟩ | ⟨idx, graph, found, removed, graphSound, emptied, kept⟩
  · rw [removed]
    exact ⟨_, engine, rfl, sound, fun node inside => sound.findNode_none missing inside,
      fun _ absent => absent⟩
  · rw [removed]
    have cleared := @clearEntry_graph { engine with graph := graph } id
    refine ⟨_, _, rfl, ?_, fun node inside => ?_, fun other absent node inside => ?_⟩
    · rw [CoherenceEngine.Sound, cleared]
      exact graphSound
    · rw [cleared]
      by_cases here : node = idx
      · rw [here, emptied]
        exact (Option.some_ne_none id).symm
      · rw [kept node here]
        intro held
        obtain ⟨idxInside, idxHeld⟩ := sound.findNode_some found
        exact here (sound.ids node idx id inside idxInside held idxHeld)
    · rw [cleared]
      by_cases here : node = idx
      · rw [here, emptied]
        exact (Option.some_ne_none other).symm
      · rw [kept node here]
        exact absent node inside

theorem Sound.recordCommunication (sound : engine.Sound) (source target : PartitionId)
    (weight : Nat) :
    ∃ result after, engine.recordCommunication source target weight = some (result, after) ∧
      after.Sound ∧ engine.graph.SameNodes after.graph := by
  unfold CoherenceEngine.recordCommunication
  obtain ⟨found, walked⟩ := CoherenceGraph.Sound.findDirectedEdge sound source target
  rw [walked, Option.map_some]
  cases found with
  | some edgeIdx =>
    dsimp only
    split
    · rename_i graph updated
      obtain ⟨shape, graphSound⟩ := CoherenceGraph.Sound.updateWeight sound updated
      exact ⟨_, _, rfl, graphSound, fun node => by rw [shape.nodes]⟩
    · exact ⟨_, engine, rfl, sound, fun _ => rfl⟩
  | none =>
    dsimp only
    split
    · rename_i edgeId graph added
      obtain ⟨graphSound, same⟩ := CoherenceGraph.Sound.addEdge_narrow sound (by decide) added
      exact ⟨_, _, rfl, graphSound, same⟩
    all_goals exact ⟨_, engine, rfl, sound, fun _ => rfl⟩

theorem Sound.tick (sound : engine.Sound) (cpuLoadPercent : Nat) :
    ∃ decision after, engine.tick cpuLoadPercent = some (decision, after) ∧ after.Sound ∧
      engine.graph.SameNodes after.graph := by
  unfold CoherenceEngine.tick advance
  obtain ⟨result, decayed, graphSound, same⟩ := CoherenceGraph.Sound.decayWeights sound edgeDecayBp
  rw [decayed, Option.map_some, Option.map_some]
  dsimp only
  split
  · exact ⟨_, _, rfl, graphSound, same⟩
  · exact ⟨_, _, rfl, graphSound, same⟩

end CoherenceEngine

end Rvm.Coherence
