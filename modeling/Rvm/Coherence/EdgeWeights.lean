import Rvm.Coherence.CachedSums

/-!
Owns the weight matrix of the coherence graph over runs of its mutators: while no
entry saturates, an entry is the total weight of the active edges from one node
to the other.
-/

namespace Rvm.Coherence

open Foundation SumCell

def Edge.share (edge : Edge) (i j : Nat) : Nat :=
  if edge.active = true ∧ edge.fromNode = i ∧ edge.toNode = j then edge.weight else 0

namespace CoherenceGraph

/-- The total weight of the active edges from one node to another. -/
def edgeWeights (maxEdges : Nat) (graph : CoherenceGraph) (i j : Nat) : Nat :=
  ∑ edge ∈ Finset.range maxEdges, (graph.edges edge).share i j

def Weighted (maxEdges : Nat) (graph : CoherenceGraph) : Prop :=
  ∀ i j, graph.adjMatrix i j = graph.edgeWeights maxEdges i j

def SumsFit (maxNodes maxEdges : Nat) (graph : CoherenceGraph) (label : GraphCall × GraphOutcome) :
    Prop :=
  SlotFits maxNodes maxEdges graph label ∧
    match label.1 with
    | .addEdge source target weight => ∀ i j, graph.findNode maxNodes source = some i →
        graph.findNode maxNodes target = some j → (graph.freeSlot maxEdges).isSome = true →
        graph.adjMatrix i j + weight ≤ u64Max
    | .updateWeight edgeId delta =>
      let edge := graph.edges edgeId
      edgeId < maxEdges → edge.active = true →
        graph.adjMatrix edge.fromNode edge.toNode - edge.weight + updatedWeight edge delta ≤ u64Max
    | _ => True

variable {maxNodes maxEdges : Nat} {graph next : CoherenceGraph}

theorem weighted_iff : Weighted maxEdges graph ↔
    ∀ i j, (entry i j).value graph = (entry i j).total maxEdges graph :=
  Iff.rfl

structure SameShares (graph next : CoherenceGraph) : Prop where
  shares : ∀ edge i j, (next.edges edge).share i j = (graph.edges edge).share i j
  matrix : next.adjMatrix = graph.adjMatrix

theorem Relinked.shares (same : Relinked graph next) : SameShares graph next where
  shares edge i j := @Alike.part (.entry i j) _ _ (same.alike edge)
  matrix := funext fun i => funext fun j => same.value (.entry i j)

theorem adjustWeights_matrix (fromIdx toIdx : Nat) (change : Nat → Nat) (i j : Nat) :
    (graph.adjustWeights fromIdx toIdx change).adjMatrix i j =
      if i = fromIdx ∧ j = toIdx then change (graph.adjMatrix i j) else graph.adjMatrix i j := by
  have value := @SumCell.value_adjustWeights graph (.entry i j) fromIdx toIdx change
  simpa only [SumCell.value, SumCell.Covers, @eq_comm _ fromIdx i, @eq_comm _ toIdx j] using value

theorem addNode_shares {id : PartitionId} {i : Nat}
    (added : graph.addNode maxNodes id = .ok (i, next)) : SameShares graph next := by
  unfold CoherenceGraph.addNode at added
  split at added
  · cases added
  · split at added
    · cases added
      exact ⟨fun _ _ _ => rfl, rfl⟩
    · cases added

theorem SlotFits.reusable {label : GraphCall × GraphOutcome}
    (fits : SlotFits maxNodes maxEdges graph label) : SlotReusable maxNodes maxEdges graph label := by
  obtain ⟨call, outcome⟩ := label
  cases call with
  | addEdge source target weight =>
    intro fromKnown toKnown slot free
    have index : asU16 slot = slot :=
      Nat.mod_eq_of_lt (Nat.lt_succ_of_lt (fits fromKnown toKnown slot free))
    rw [index]
    exact .inl (freeSlot_eq_some free).2.1
  | _ => exact trivial

theorem SumsFit.entry {label : GraphCall × GraphOutcome}
    (fits : SumsFit maxNodes maxEdges graph label) (i j : Nat) :
    (entry i j).Fits maxNodes maxEdges graph label := by
  obtain ⟨call, outcome⟩ := label
  cases call with
  | addEdge source target weight =>
    rintro fromIdx toIdx fromFound toFound free ⟨rfl, rfl⟩
    exact fits.2 fromIdx toIdx fromFound toFound free
  | updateWeight edgeId delta =>
    intro inside active covers
    have room := fits.2 inside active
    rw [covers.1, covers.2] at room
    exact room
  | _ => exact trivial

theorem sumsFit_addEdge {source target : PartitionId} {weight fromIdx toIdx : Nat}
    {outcome : GraphOutcome} (narrow : maxEdges ≤ invalid)
    (fromFound : graph.findNode maxNodes source = some fromIdx)
    (toFound : graph.findNode maxNodes target = some toIdx)
    (small : graph.adjMatrix fromIdx toIdx + weight ≤ u64Max) :
    SumsFit maxNodes maxEdges graph (.addEdge source target weight, outcome) := by
  refine ⟨fun _ _ slot free => Nat.lt_of_lt_of_le (freeSlot_eq_some free).1 narrow, ?_⟩
  intro i j iFound jFound _
  rw [fromFound] at iFound
  rw [toFound] at jFound
  cases iFound
  cases jFound
  exact small

/-- While slots fit and no entry saturates, every reached graph is sound and its
matrix holds the weights of the active edges. -/
theorem weighted_run {history : List (GraphCall × GraphOutcome)}
    (run : Run (Guarded (Step maxNodes maxEdges) (SumsFit maxNodes maxEdges)) .new history graph) :
    Sound maxNodes maxEdges graph ∧ Weighted maxEdges graph := by
  have holds := @Run.stateInvariant _ _ _ _ _ _
    (fun here => Sound maxNodes maxEdges here ∧ ∀ i j, Cached maxEdges (.entry i j) here ∧
      (entry i j).total maxEdges here ≤ u64Max)
    ⟨sound_new maxNodes maxEdges, fun _ _ => cached_new⟩
    (fun here label next holds guarded => ⟨(holds.1.step guarded.1).1 guarded.2.1, fun i j => by
      obtain ⟨cached, within⟩ := holds.2 i j
      obtain ⟨nextCached, nextWithin⟩ :=
        cached.step guarded.2.1.reusable (fun _ _ _ => within) guarded.1
      exact ⟨nextCached, nextWithin within (guarded.2.entry i j)⟩⟩) run
  exact ⟨holds.1, weighted_iff.mpr fun i j => (holds.2 i j).1.exact (holds.2 i j).2⟩

end CoherenceGraph

end Rvm.Coherence
