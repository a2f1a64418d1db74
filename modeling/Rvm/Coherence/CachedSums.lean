import Mathlib.Algebra.BigOperators.Group.Finset.Piecewise
import Mathlib.Algebra.Order.BigOperators.Group.Finset
import Rvm.Coherence.GraphRuns

/-!
Owns the cached weight sums of the coherence graph over runs of its mutators: one
law for a matrix entry, the sum that leaves a node and the sum that enters one.
-/

namespace Rvm.Coherence

open Foundation Function Finset Option CoherenceGraph

/-- A sum that the graph caches. -/
inductive SumCell where
  | entry (i j : Nat)
  | outgoing (i : Nat)
  | incoming (j : Nat)

def CoherenceGraph.updatedWeight (edge : Edge) (delta : Int) : Nat :=
  if 0 ≤ delta then saturatingAdd64 edge.weight delta.toNat else edge.weight - delta.natAbs

namespace SumCell

/-- An edge from one node to another counts in the sum. -/
def Covers : SumCell → Nat → Nat → Prop
  | entry i j, fromIdx, toIdx => fromIdx = i ∧ toIdx = j
  | outgoing i, fromIdx, _ => fromIdx = i
  | incoming j, _, toIdx => toIdx = j

instance (cell : SumCell) (fromIdx toIdx : Nat) : Decidable (cell.Covers fromIdx toIdx) :=
  match cell with
  | entry i j => inferInstanceAs (Decidable (fromIdx = i ∧ toIdx = j))
  | outgoing i => inferInstanceAs (Decidable (fromIdx = i))
  | incoming j => inferInstanceAs (Decidable (toIdx = j))

def part (cell : SumCell) (edge : Edge) : Nat :=
  if edge.active = true ∧ cell.Covers edge.fromNode edge.toNode then edge.weight else 0

def total (maxEdges : Nat) (cell : SumCell) (graph : CoherenceGraph) : Nat :=
  ∑ edge ∈ range maxEdges, cell.part (graph.edges edge)

def value : SumCell → CoherenceGraph → Nat
  | entry i j, graph => graph.adjMatrix i j
  | outgoing i, graph => graph.cachedOutgoing i
  | incoming j, graph => graph.cachedIncoming j

def Fits (maxNodes maxEdges : Nat) (cell : SumCell) (graph : CoherenceGraph)
    (label : GraphCall × GraphOutcome) : Prop :=
  match label.1 with
  | .addEdge source target weight => ∀ i j, graph.findNode maxNodes source = some i →
      graph.findNode maxNodes target = some j → (graph.freeSlot maxEdges).isSome = true →
      cell.Covers i j → cell.value graph + weight ≤ u64Max
  | .updateWeight edgeId delta =>
    let edge := graph.edges edgeId
    edgeId < maxEdges → edge.active = true → cell.Covers edge.fromNode edge.toNode →
      cell.value graph - edge.weight + updatedWeight edge delta ≤ u64Max
  | _ => True

variable {maxEdges : Nat} {graph next : CoherenceGraph} {cell : SumCell} {edge : Edge}

theorem part_inactive (inactive : edge.active = false) : cell.part edge = 0 := by
  simp [part, inactive]

theorem part_active (active : edge.active = true) :
    cell.part edge = if cell.Covers edge.fromNode edge.toNode then edge.weight else 0 := by
  simp [part, active]

theorem part_le_weight : cell.part edge ≤ edge.weight := by
  unfold part
  split
  · exact le_rfl
  · exact Nat.zero_le _

theorem part_le_total {slot : Nat} (inside : slot < maxEdges) :
    cell.part (graph.edges slot) ≤ cell.total maxEdges graph :=
  single_le_sum (f := fun edge => cell.part (graph.edges edge))
    (fun _ _ => Nat.zero_le _) (mem_range.mpr inside)

theorem total_change {slot : Nat} (inside : slot < maxEdges)
    (others : ∀ edge, edge ≠ slot → cell.part (next.edges edge) = cell.part (graph.edges edge)) :
    cell.total maxEdges next + cell.part (graph.edges slot) =
      cell.total maxEdges graph + cell.part (next.edges slot) := by
  have member := mem_range.mpr inside
  have rest : ∑ edge ∈ (range maxEdges).erase slot, cell.part (next.edges edge) =
      ∑ edge ∈ (range maxEdges).erase slot, cell.part (graph.edges edge) :=
    sum_congr rfl fun edge inErase => others edge (ne_of_mem_erase inErase)
  rw [total, total, ← sum_erase_add _ _ member, rest, ← sum_erase_add (range maxEdges) _ member]
  omega

theorem total_le {slot : Nat} (inside : slot < maxEdges)
    (others : ∀ edge, edge ≠ slot → cell.part (next.edges edge) = cell.part (graph.edges edge))
    (less : cell.part (next.edges slot) ≤ cell.part (graph.edges slot)) :
    cell.total maxEdges next ≤ cell.total maxEdges graph := by
  have sums := @total_change maxEdges graph next cell slot inside others
  omega

theorem value_adjustWeights {fromIdx toIdx : Nat} {change : Nat → Nat} :
    cell.value (graph.adjustWeights fromIdx toIdx change) =
      if cell.Covers fromIdx toIdx then change (cell.value graph) else cell.value graph := by
  cases cell with
  | entry i j =>
    change update graph.adjMatrix fromIdx _ i j = _
    by_cases row : fromIdx = i
    · subst row
      by_cases column : toIdx = j
      · simp [Covers, value, column]
      · simp [Covers, value, column, update_of_ne (Ne.symm column)]
    · simp [Covers, value, row, update_of_ne (Ne.symm row)]
  | outgoing i =>
    change update graph.cachedOutgoing fromIdx _ i = _
    by_cases row : fromIdx = i
    · simp [Covers, value, row]
    · simp [Covers, value, row, update_of_ne (Ne.symm row)]
  | incoming j =>
    change update graph.cachedIncoming toIdx _ j = _
    by_cases column : toIdx = j
    · simp [Covers, value, column]
    · simp [Covers, value, column, update_of_ne (Ne.symm column)]

end SumCell

namespace CoherenceGraph

/-- A cached sum is right, or saturated; active edges join occupied nodes, and none
is beyond the indices of 16 bits. -/
structure Cached (maxEdges : Nat) (cell : SumCell) (graph : CoherenceGraph) : Prop where
  capped : cell.value graph = min (cell.total maxEdges graph) u64Max
  source : ∀ edge, edge < maxEdges → graph.edgeActive edge = true →
    graph.nodeActive (graph.edges edge).fromNode = true
  target : ∀ edge, edge < maxEdges → graph.edgeActive edge = true →
    graph.nodeActive (graph.edges edge).toNode = true
  below : ∀ edge, edge < maxEdges → graph.edgeActive edge = true → edge < 65536

def SlotReusable (maxNodes maxEdges : Nat) (graph : CoherenceGraph)
    (label : GraphCall × GraphOutcome) : Prop :=
  match label.1 with
  | .addEdge source target _ =>
    (graph.findNode maxNodes source).isSome = true →
      (graph.findNode maxNodes target).isSome = true →
      ∀ slot, graph.freeSlot maxEdges = some slot →
        graph.edgeActive (asU16 slot) = false ∨ (graph.edges (asU16 slot)).weight = 0
  | _ => True

def decayedWeight (decayBp weight : Nat) : Nat := min (weight * (10000 - decayBp)) u64Max / 10000

/-- What a call leaves of the weight of an active edge, none where the edge goes. -/
def weightAfter (maxNodes : Nat) (graph : CoherenceGraph) (call : GraphCall) (edgeIdx : Nat) : Nat :=
  let edge := graph.edges edgeIdx
  match call with
  | .addNode _ | .addEdge _ _ _ => edge.weight
  | .removeNode id =>
    if graph.findNode maxNodes id = some edge.fromNode ∨
      graph.findNode maxNodes id = some edge.toNode then 0 else edge.weight
  | .updateWeight edgeId delta =>
    if edgeIdx = edgeId then updatedWeight edge delta else edge.weight
  | .decayWeights decayBp => decayedWeight decayBp edge.weight

/-- A sum that counts an edge from which the call takes weight is within 64 bits. -/
def LowersWithin (maxNodes maxEdges : Nat) (cell : SumCell) (graph : CoherenceGraph)
    (label : GraphCall × GraphOutcome) : Prop :=
  ∀ edgeIdx, edgeIdx < maxEdges →
    weightAfter maxNodes graph label.1 edgeIdx < cell.part (graph.edges edgeIdx) →
    cell.total maxEdges graph ≤ u64Max

/-- A call after which no sum over the active edges exceeds 64 bits. -/
def StepWithin (maxNodes maxEdges : Nat) (graph : CoherenceGraph)
    (label : GraphCall × GraphOutcome) (next : CoherenceGraph) : Prop :=
  Step maxNodes maxEdges graph label next ∧
    ∀ cell : SumCell, cell.total maxEdges next ≤ u64Max

variable {maxNodes maxEdges : Nat} {graph next : CoherenceGraph} {cell : SumCell} {id : PartitionId}
  {i edgeIdx weight slot : Nat}

theorem lowersWithin_of_grows {label : GraphCall × GraphOutcome}
    (grows : ∀ edgeIdx, (graph.edges edgeIdx).weight ≤ weightAfter maxNodes graph label.1 edgeIdx) :
    LowersWithin maxNodes maxEdges cell graph label := fun edgeIdx _ lowers =>
  absurd (SumCell.part_le_weight.trans (grows edgeIdx)) (Nat.not_le.mpr lowers)

theorem findNode_held (found : graph.findNode maxNodes id = some i) :
    graph.nodeActive i = true := by
  have held : (graph.nodes i).partition = some id := by
    rcases or_eq_some_iff.mp found with direct | ⟨_, scanned⟩
    · have fits : i < maxNodes ∧ (graph.nodes i).partition = some id := by
        simpa using (filter_eq_some_iff.mp direct).2
      exact fits.2
    · simpa using List.find?_some scanned
  rw [nodeActive, held]
  rfl

/-! ### One edge -/

theorem Cached.exact (cached : Cached maxEdges cell graph)
    (within : cell.total maxEdges graph ≤ u64Max) :
    cell.value graph = cell.total maxEdges graph :=
  cached.capped.trans (Nat.min_eq_left within)

theorem capped_change {slot : Nat} (inside : slot < maxEdges)
    (others : ∀ edge, edge ≠ slot → cell.part (next.edges edge) = cell.part (graph.edges edge))
    (value : cell.value next = min (cell.total maxEdges graph - cell.part (graph.edges slot) +
      cell.part (next.edges slot)) u64Max) :
    cell.value next = min (cell.total maxEdges next) u64Max := by
  have sums := @SumCell.total_change maxEdges graph next cell slot inside others
  have part := @SumCell.part_le_total maxEdges graph cell slot inside
  rw [value]
  omega

/-- The same edge up to its link. -/
structure Alike (edge next : Edge) : Prop where
  active : next.active = edge.active
  fromNode : next.fromNode = edge.fromNode
  toNode : next.toNode = edge.toNode
  weight : next.weight = edge.weight

theorem Alike.part {edge next : Edge} (alike : Alike edge next) :
    cell.part next = cell.part edge := by
  rw [SumCell.part, SumCell.part, alike.active, alike.fromNode, alike.toNode, alike.weight]

/-- The same graph up to the links of its lists. -/
structure Relinked (graph next : CoherenceGraph) : Prop where
  active : ∀ edge, next.edgeActive edge = graph.edgeActive edge
  fromNode : ∀ edge, (next.edges edge).fromNode = (graph.edges edge).fromNode
  toNode : ∀ edge, (next.edges edge).toNode = (graph.edges edge).toNode
  weight : ∀ edge, (next.edges edge).weight = (graph.edges edge).weight
  nodeActive : ∀ node, next.nodeActive node = graph.nodeActive node
  value : ∀ cell : SumCell, cell.value next = cell.value graph

theorem Relinked.alike (same : Relinked graph next) (edge : Nat) :
    Alike (graph.edges edge) (next.edges edge) :=
  ⟨same.active edge, same.fromNode edge, same.toNode edge, same.weight edge⟩

theorem setFirstEdge_relinked (node first : Nat) : Relinked graph (graph.setFirstEdge node first) where
  active _ := rfl
  fromNode _ := rfl
  toNode _ := rfl
  weight _ := rfl
  nodeActive other := by
    change (update graph.nodes node _ other).partition.isSome = _
    by_cases here : other = node
    · rw [here, update_self]
      rfl
    · rw [update_of_ne here]
      rfl
  value cell := by cases cell <;> rfl

theorem setNext_relinked (before nextFrom : Nat) :
    Relinked graph (graph.setEdge before { graph.edges before with nextFrom := nextFrom }) := by
  have field : ∀ {α : Type} (get : Edge → α),
      (∀ edge : Edge, get { edge with nextFrom := nextFrom } = get edge) → ∀ edge,
      get (update graph.edges before { graph.edges before with nextFrom := nextFrom } edge) =
        get (graph.edges edge) := by
    intro α get keeps edge
    by_cases here : edge = before
    · rw [here, update_self, keeps]
    · rw [update_of_ne here]
  exact ⟨field _ fun _ => rfl, field _ fun _ => rfl, field _ fun _ => rfl, field _ fun _ => rfl,
    fun _ => rfl, fun cell => by cases cell <;> rfl⟩

theorem skipEdge_relinked {fuel cur : Nat}
    (walked : graph.skipEdge maxEdges edgeIdx fuel cur = some next) : Relinked graph next := by
  induction fuel generalizing cur with
  | zero => cases walked
  | succ fuel ih =>
    rw [skipEdge] at walked
    split at walked
    · cases walked
      exact ⟨fun _ => rfl, fun _ => rfl, fun _ => rfl, fun _ => rfl, fun _ => rfl, fun _ => rfl⟩
    · split at walked
      · cases walked
      · split at walked
        · cases walked
          exact setNext_relinked _ _
        · exact ih walked

theorem unlinkEdge_relinked (unlinked : graph.unlinkEdge maxEdges edgeIdx = some next) :
    Relinked graph next := by
  unfold unlinkEdge at unlinked
  dsimp only at unlinked
  split at unlinked
  · cases unlinked
    exact setFirstEdge_relinked _ _
  · exact skipEdge_relinked unlinked

/-! ### The mutators -/

theorem Cached.removeEdgeByIndex (cached : Cached maxEdges cell graph)
    (loses : 0 < cell.part (graph.edges edgeIdx) → cell.total maxEdges graph ≤ u64Max)
    (removed : graph.removeEdgeByIndex maxEdges edgeIdx = some next) :
    Cached maxEdges cell next ∧ cell.total maxEdges next ≤ cell.total maxEdges graph ∧
      (edgeIdx < maxEdges → next.edgeActive edgeIdx = false) ∧
      ∀ edge, edge ≠ edgeIdx → Alike (graph.edges edge) (next.edges edge) := by
  unfold CoherenceGraph.removeEdgeByIndex at removed
  dsimp only at removed
  split at removed
  · rename_i absent
    cases removed
    refine ⟨cached, le_rfl, fun inside => ?_, fun edge _ => ⟨rfl, rfl, rfl, rfl⟩⟩
    exact absent.resolve_left (Nat.not_le.mpr inside)
  · rename_i present
    obtain ⟨outside, inactive⟩ := not_or.mp present
    obtain ⟨unlinked, walked, rfl⟩ := map_eq_some_iff.mp removed
    have same := unlinkEdge_relinked walked
    have active : (graph.edges edgeIdx).active = true := by simpa using inactive
    have released : (unlinked.releaseEdge edgeIdx).edgeActive edgeIdx = false := by
      change (update unlinked.edges edgeIdx _ edgeIdx).active = false
      rw [update_self]
    have others : ∀ edge, edge ≠ edgeIdx →
        Alike (graph.edges edge) ((unlinked.releaseEdge edgeIdx).edges edge) := by
      intro edge apart
      have untouched : (unlinked.releaseEdge edgeIdx).edges edge = unlinked.edges edge :=
        update_of_ne apart _ _
      rw [untouched]
      exact same.alike edge
    have fewer : ∀ edge, (unlinked.releaseEdge edgeIdx).edgeActive edge = true →
        graph.edgeActive edge = true ∧
          Alike (graph.edges edge) ((unlinked.releaseEdge edgeIdx).edges edge) := by
      intro edge stillActive
      have apart : edge ≠ edgeIdx := by
        intro here
        rw [here, released] at stillActive
        cases stillActive
      exact ⟨(others edge apart).active.symm.trans stillActive, others edge apart⟩
    have nodes : ∀ node, (unlinked.releaseEdge edgeIdx).nodeActive node = graph.nodeActive node :=
      same.nodeActive
    have sums := @SumCell.total_change maxEdges graph (unlinked.releaseEdge edgeIdx) cell edgeIdx
      (Nat.not_le.mp outside) fun edge apart => (others edge apart).part
    rw [SumCell.part_inactive released] at sums
    refine ⟨⟨?_, fun edge inside stillActive => ?_, fun edge inside stillActive => ?_,
      fun edge inside stillActive => cached.below edge inside (fewer edge stillActive).1⟩,
      by omega, fun _ => released, others⟩
    · have value : cell.value (unlinked.releaseEdge edgeIdx) = cell.value unlinked := by
        cases cell <;> rfl
      rw [value, same.value, SumCell.value_adjustWeights, cached.capped]
      rw [SumCell.part_active active] at sums loses
      by_cases covers : cell.Covers (graph.edges edgeIdx).fromNode (graph.edges edgeIdx).toNode
      · rw [if_pos covers] at sums loses ⊢
        omega
      · rw [if_neg covers] at sums ⊢
        omega
    · rw [nodes, (fewer edge stillActive).2.fromNode]
      exact cached.source edge inside (fewer edge stillActive).1
    · rw [nodes, (fewer edge stillActive).2.toNode]
      exact cached.target edge inside (fewer edge stillActive).1

/-- The graph after an edge got a weight and the sums over it a change. -/
abbrev reweighted (graph : CoherenceGraph) (edgeIdx weight : Nat) (change : Nat → Nat) :
    CoherenceGraph :=
  (graph.setEdge edgeIdx { graph.edges edgeIdx with weight := weight }).adjustWeights
    (graph.edges edgeIdx).fromNode (graph.edges edgeIdx).toNode change

theorem setWeight_part (active : (graph.edges edgeIdx).active = true) {change : Nat → Nat} :
    cell.part ((graph.reweighted edgeIdx weight change).edges edgeIdx) =
      if cell.Covers (graph.edges edgeIdx).fromNode (graph.edges edgeIdx).toNode then weight
      else 0 :=
  (congrArg cell.part (update_self edgeIdx _ graph.edges)).trans
    (SumCell.part_active active)

theorem setWeight_others {edgeIdx weight : Nat} {change : Nat → Nat} (edge : Nat)
    (apart : edge ≠ edgeIdx) :
    cell.part ((graph.reweighted edgeIdx weight change).edges edge) = cell.part (graph.edges edge) :=
  congrArg cell.part (update_of_ne apart _ _)

theorem Cached.setWeight (cached : Cached maxEdges cell graph) {edgeIdx weight : Nat}
    (inside : edgeIdx < maxEdges) (active : (graph.edges edgeIdx).active = true)
    {change : Nat → Nat}
    (changed : cell.Covers (graph.edges edgeIdx).fromNode (graph.edges edgeIdx).toNode →
      change (cell.value graph) = min (cell.total maxEdges graph - (graph.edges edgeIdx).weight +
        weight) u64Max) :
    Cached maxEdges cell (graph.reweighted edgeIdx weight change) := by
  have shape := @setWeight_shape graph edgeIdx weight (graph.edges edgeIdx).fromNode
    (graph.edges edgeIdx).toNode change
  have value : cell.value (graph.setEdge edgeIdx { graph.edges edgeIdx with weight := weight }) =
      cell.value graph := by cases cell <;> rfl
  refine ⟨capped_change inside setWeight_others ?_, fun edge here held => ?_,
    fun edge here held => ?_, fun edge here held =>
    cached.below edge here ((shape.active edge).symm.trans held)⟩
  · rw [SumCell.value_adjustWeights, value, setWeight_part active, SumCell.part_active active]
    split
    · rename_i covers
      exact changed covers
    · exact cached.capped
  · rw [shape.fromNode, nodeActive, shape.nodes]
    exact cached.source edge here ((shape.active edge).symm.trans held)
  · rw [shape.toNode, nodeActive, shape.nodes]
    exact cached.target edge here ((shape.active edge).symm.trans held)

theorem linkEdge_part {fromIdx toIdx : Nat} :
    cell.part ((graph.linkEdge slot fromIdx toIdx weight).edges slot) =
      if cell.Covers fromIdx toIdx then weight else 0 :=
  (congrArg cell.part (update_self slot _ graph.edges)).trans (SumCell.part_active rfl)

theorem part_reusable (free : graph.edgeActive slot = false ∨ (graph.edges slot).weight = 0) :
    cell.part (graph.edges slot) = 0 := by
  rcases free with inactive | none
  · exact SumCell.part_inactive inactive
  · simp [SumCell.part, none]

theorem Cached.linkEdge (cached : Cached maxEdges cell graph) {fromIdx toIdx : Nat}
    (inside : slot < maxEdges) (small : slot < 65536)
    (free : graph.edgeActive slot = false ∨ (graph.edges slot).weight = 0)
    (fromHeld : graph.nodeActive fromIdx = true) (toHeld : graph.nodeActive toIdx = true) :
    Cached maxEdges cell (graph.linkEdge slot fromIdx toIdx weight) := by
  have linked := @linkEdge_linked graph slot fromIdx toIdx weight
  have nodes : (graph.linkEdge slot fromIdx toIdx weight).nodeActive = graph.nodeActive := by
    funext node
    rw [nodeActive, linked.partitions, nodeActive]
  have value : cell.value (graph.linkEdge slot fromIdx toIdx weight) =
      if cell.Covers fromIdx toIdx then saturatingAdd64 (cell.value graph) weight
      else cell.value graph := by
    unfold CoherenceGraph.linkEdge
    rw [SumCell.value_adjustWeights]
    cases cell <;> rfl
  refine ⟨@capped_change maxEdges graph _ cell slot inside (fun edge apart => ?_) ?_,
    fun edge here active => ?_, fun edge here active => ?_, fun edge here active => ?_⟩
  · rw [linked.others edge apart]
  · rw [value, part_reusable free, linkEdge_part, cached.capped, Nat.sub_zero]
    split
    · unfold saturatingAdd64
      omega
    · rfl
  all_goals
    by_cases atSlot : edge = slot
  · rw [atSlot, nodes, linked.fromNode]
    exact fromHeld
  · rw [edgeActive, linked.others edge atSlot] at active
    rw [nodes, linked.others edge atSlot]
    exact cached.source edge here active
  · rw [atSlot, nodes, linked.toNode]
    exact toHeld
  · rw [edgeActive, linked.others edge atSlot] at active
    rw [nodes, linked.others edge atSlot]
    exact cached.target edge here active
  · exact atSlot ▸ small
  · rw [edgeActive, linked.others edge atSlot] at active
    exact cached.below edge here active

theorem Cached.addNode (cached : Cached maxEdges cell graph)
    (added : graph.addNode maxNodes id = .ok (i, next)) : Cached maxEdges cell next := by
  have value : cell.value next = cell.value graph := by
    unfold CoherenceGraph.addNode at added
    split at added
    · cases added
    · split at added
      · cases added
        cases cell <;> rfl
      · cases added
  obtain ⟨_, _, _, nodes, edges, _⟩ := addNode_cases added
  have active : next.edgeActive = graph.edgeActive := by
    unfold edgeActive
    rw [edges]
  have more : ∀ node, graph.nodeActive node = true → next.nodeActive node = true := by
    intro node held
    rw [nodeActive, nodes]
    by_cases here : node = i
    · rw [here, update_self]
      rfl
    · rw [update_of_ne here]
      exact held
  refine ⟨?_, fun edge inside held => more _ ?_, fun edge inside held => more _ ?_,
    fun edge inside held => cached.below edge inside (active ▸ held)⟩
  · rw [value, cached.capped, SumCell.total, SumCell.total, edges]
  · rw [edges]
    exact cached.source edge inside (active ▸ held)
  · rw [edges]
    exact cached.target edge inside (active ▸ held)

theorem Cached.clearNode (cached : Cached maxEdges cell graph) {idx : Nat}
    (isolated : ∀ edge, edge < maxEdges → graph.edgeActive edge = true →
      (graph.edges edge).fromNode ≠ idx ∧ (graph.edges edge).toNode ≠ idx) :
    Cached maxEdges cell (graph.clearNode id idx) := by
  have others : ∀ node, node ≠ idx →
      (graph.clearNode id idx).nodeActive node = graph.nodeActive node := by
    intro node apart
    change (update graph.nodes idx .empty node).partition.isSome = _
    rw [update_of_ne apart]
    rfl
  have emptied : (∀ fromIdx toIdx, cell.Covers fromIdx toIdx → fromIdx = idx ∨ toIdx = idx) →
      cell.total maxEdges graph = 0 := by
    intro touches
    refine sum_eq_zero fun edge member => if_neg fun counted => ?_
    obtain ⟨notFrom, notTo⟩ := isolated edge (mem_range.mp member) counted.1
    exact (touches _ _ counted.2).elim notFrom notTo
  refine ⟨?_, fun edge inside active => ?_, fun edge inside active => ?_, cached.below⟩
  · change cell.value (graph.clearNode id idx) = min (cell.total maxEdges graph) u64Max
    cases cell with
    | entry i j =>
      change (if i = idx ∨ j = idx then 0 else graph.adjMatrix i j) = _
      split
      · rename_i touched
        rw [emptied fun fromIdx toIdx covers => touched.imp covers.1.trans covers.2.trans]
        rfl
      · exact cached.capped
    | outgoing i =>
      change update graph.cachedOutgoing idx 0 i = _
      by_cases here : i = idx
      · subst here
        rw [update_self, emptied fun fromIdx toIdx covers => .inl covers]
        rfl
      · rw [update_of_ne here]
        exact cached.capped
    | incoming j =>
      change update graph.cachedIncoming idx 0 j = _
      by_cases here : j = idx
      · subst here
        rw [update_self, emptied fun fromIdx toIdx covers => .inr covers]
        rfl
      · rw [update_of_ne here]
        exact cached.capped
  · refine (others _ (isolated edge inside active).1).trans ?_
    exact cached.source edge inside active
  · refine (others _ (isolated edge inside active).2).trans ?_
    exact cached.target edge inside active

theorem Cached.removeNode (cached : Cached maxEdges cell graph) {reply : GraphOutcome}
    (lowers : LowersWithin maxNodes maxEdges cell graph (.removeNode id, reply))
    {outcome : Except GraphError CoherenceGraph}
    (removed : graph.removeNode maxNodes maxEdges id = some outcome) :
    outcome = .error .nodeNotFound ∨ ∃ after, outcome = .ok after ∧ Cached maxEdges cell after ∧
      cell.total maxEdges after ≤ cell.total maxEdges graph := by
  unfold CoherenceGraph.removeNode at removed
  split at removed
  · exact .inl (some.inj removed).symm
  · rename_i idx found
    obtain ⟨stripped, swept, rfl⟩ := map_eq_some_iff.mp removed
    have losing : ∀ edge, edge < maxEdges →
        (graph.edges edge).fromNode = idx ∨ (graph.edges edge).toNode = idx →
        0 < cell.part (graph.edges edge) → cell.total maxEdges graph ≤ u64Max := by
      intro edge inside touches counted
      refine lowers edge inside ?_
      rw [weightAfter, found]
      rwa [if_pos (touches.imp (congrArg some ·.symm) (congrArg some ·.symm))]
    -- an edge that is still to go is one of those that the sums were asked for at first
    have holds := @sweep_holds CoherenceGraph maxEdges
      (fun visited here => (Cached maxEdges cell here ∧
        cell.total maxEdges here ≤ cell.total maxEdges graph ∧
        ∀ edge, edge < maxEdges →
          (here.edges edge).fromNode = idx ∨ (here.edges edge).toNode = idx →
          0 < cell.part (here.edges edge) → cell.total maxEdges here ≤ u64Max) ∧
        ∀ edge, edge < visited → here.edgeActive edge = true →
          (here.edges edge).fromNode ≠ idx ∧ (here.edges edge).toNode ≠ idx)
      graph (removeIncident maxEdges idx)
      ⟨⟨cached, le_rfl, losing⟩, fun edge below => absurd below (Nat.not_lt_zero edge)⟩
      (by
        intro edge here after inside ⟨⟨held, less, lost⟩, gone⟩ visited
        unfold removeIncident at visited
        dsimp only at visited
        split at visited
        · rename_i incident
          have index : asU16 edge = edge := Nat.mod_eq_of_lt (held.below edge inside incident.1)
          rw [index] at visited
          obtain ⟨kept, lesser, released, alike⟩ :=
            held.removeEdgeByIndex (lost edge inside incident.2) visited
          refine ⟨⟨kept, lesser.trans less, fun other within touches counted => ?_⟩,
            fun other below active => ?_⟩
          · have apart : other ≠ edge := by
              rintro rfl
              rw [SumCell.part_inactive (released inside)] at counted
              exact absurd counted (lt_irrefl 0)
            have same := alike other apart
            rw [same.fromNode, same.toNode] at touches
            rw [same.part] at counted
            exact lesser.trans (lost other within touches counted)
          · have apart : other ≠ edge := by
              rintro rfl
              rw [released inside] at active
              cases active
            have same := alike other apart
            rw [same.fromNode, same.toNode]
            exact gone other (by omega) (same.active.symm.trans active)
        · rename_i apart
          cases visited
          refine ⟨⟨held, less, lost⟩, fun other below active => ?_⟩
          rcases Nat.lt_succ_iff_lt_or_eq.mp below with earlier | rfl
          · exact gone other earlier active
          · exact not_or.mp fun touches => apart ⟨active, touches⟩)
      stripped swept
    exact .inr ⟨_, rfl, holds.1.1.clearNode holds.2, holds.1.2.1⟩

theorem Cached.decayEdge (cached : Cached maxEdges cell graph) {decayBp pruned edge : Nat}
    (loses : decayedWeight decayBp (graph.edges edge).weight < cell.part (graph.edges edge) →
      cell.total maxEdges graph ≤ u64Max)
    {result : CoherenceGraph × Nat} (inside : edge < maxEdges)
    (decayed : decayEdge maxEdges decayBp (graph, pruned) edge = some result) :
    Cached maxEdges cell result.1 ∧ cell.total maxEdges result.1 ≤ cell.total maxEdges graph ∧
      ∀ other, other ≠ edge → Alike (graph.edges other) (result.1.edges other) := by
  unfold CoherenceGraph.decayEdge at decayed
  dsimp only at decayed
  split at decayed
  · cases decayed
    exact ⟨cached, le_rfl, fun _ _ => ⟨rfl, rfl, rfl, rfl⟩⟩
  · rename_i inactive
    have active : (graph.edges edge).active = true := by simpa using inactive
    split at decayed
    · rename_i vanishes
      obtain ⟨removedGraph, removed, rfl⟩ := map_eq_some_iff.mp decayed
      have index : asU16 edge = edge := Nat.mod_eq_of_lt (cached.below edge inside active)
      rw [decayedWeight, vanishes] at loses
      rw [index] at removed
      obtain ⟨kept, less, _, alike⟩ := cached.removeEdgeByIndex loses removed
      exact ⟨kept, less, alike⟩
    · cases decayed
      have present := @SumCell.part_le_total maxEdges graph cell edge inside
      have smaller : decayedWeight decayBp (graph.edges edge).weight ≤
          (graph.edges edge).weight := by
        refine Nat.div_le_of_le_mul ((Nat.min_le_left _ _).trans ?_)
        rw [Nat.mul_comm 10000]
        exact Nat.mul_le_mul_left _ (Nat.sub_le _ _)
      refine ⟨?_, ?_, fun other apart => ?_⟩
      · refine @Cached.setWeight maxEdges graph cell cached edge
          (decayedWeight decayBp (graph.edges edge).weight) inside active
          (fun sum => sum - ((graph.edges edge).weight -
            decayedWeight decayBp (graph.edges edge).weight)) fun covers => ?_
        rw [SumCell.part_active active, if_pos covers] at present loses
        rw [cached.capped]
        omega
      · refine @SumCell.total_le maxEdges graph _ cell edge inside (@setWeight_others graph cell edge
          (decayedWeight decayBp (graph.edges edge).weight)
          fun sum => sum - ((graph.edges edge).weight -
            decayedWeight decayBp (graph.edges edge).weight)) ?_
        rw [setWeight_part active, SumCell.part_active active]
        split
        · exact smaller
        · exact le_rfl
      · have untouched : ∀ changed, update graph.edges edge changed other = graph.edges other :=
          fun _ => update_of_ne apart _ _
        dsimp only [adjustWeights, setEdge]
        rw [untouched]
        exact ⟨rfl, rfl, rfl, rfl⟩

theorem Cached.decayWeights (cached : Cached maxEdges cell graph) {decayBp : Nat}
    {reply : GraphOutcome}
    (lowers : LowersWithin maxNodes maxEdges cell graph (.decayWeights decayBp, reply))
    {result : CoherenceGraph × Nat}
    (decayed : graph.decayWeights maxEdges decayBp = some result) :
    Cached maxEdges cell result.1 ∧ cell.total maxEdges result.1 ≤ cell.total maxEdges graph := by
  -- the edges that are still to be visited are as they were
  have holds := @sweep_holds (CoherenceGraph × Nat) maxEdges
    (fun visited here => (Cached maxEdges cell here.1 ∧
      cell.total maxEdges here.1 ≤ cell.total maxEdges graph) ∧
      ∀ edge, visited ≤ edge → Alike (graph.edges edge) (here.1.edges edge)) (graph, 0)
    (CoherenceGraph.decayEdge maxEdges decayBp)
    ⟨⟨cached, le_rfl⟩, fun _ _ => ⟨rfl, rfl, rfl, rfl⟩⟩
    (by
      intro edge here after inside ⟨⟨held, less⟩, unvisited⟩ visited
      have same := unvisited edge le_rfl
      obtain ⟨kept, lesser, alike⟩ := held.decayEdge (fun loses => by
        rw [same.weight, same.part] at loses
        exact less.trans (lowers edge inside loses)) inside visited
      refine ⟨⟨kept, lesser.trans less⟩, fun other later => ?_⟩
      have before := unvisited other (by omega)
      have kept := alike other (by omega)
      exact ⟨kept.active.trans before.active, kept.fromNode.trans before.fromNode,
        kept.toNode.trans before.toNode, kept.weight.trans before.weight⟩)
    result decayed
  exact holds.1

/-! ### Calls -/

theorem cached_new : Cached maxEdges cell .new ∧ cell.total maxEdges .new ≤ u64Max := by
  have value : cell.value .new = 0 := by cases cell <;> rfl
  have zero : cell.total maxEdges .new = 0 :=
    sum_eq_zero fun edge _ => SumCell.part_inactive rfl
  refine ⟨⟨?_, ?_, ?_, ?_⟩, zero.le.trans (Nat.zero_le _)⟩
  · rw [value, zero]
    rfl
  all_goals exact fun _ _ active => Bool.noConfusion active

theorem Cached.addEdge (cached : Cached maxEdges cell graph) {source target : PartitionId}
    {outcome : GraphOutcome}
    (reusable : SlotReusable maxNodes maxEdges graph (.addEdge source target weight, outcome))
    (step : Step maxNodes maxEdges graph (.addEdge source target weight, outcome) next) :
    Cached maxEdges cell next ∧ (cell.total maxEdges graph ≤ u64Max →
      cell.Fits maxNodes maxEdges graph (.addEdge source target weight, outcome) →
      cell.total maxEdges next ≤ u64Max) := by
  rw [Step, apply] at step
  rcases @addEdge_cases maxNodes maxEdges graph source target weight with
    ⟨⟨e, failed⟩, _⟩ | ⟨fromIdx, toIdx, slot, fromFound, toFound, free, linked⟩
  · rw [failed] at step
    cases step
    exact ⟨cached, fun within _ => within⟩
  · rw [linked] at step
    cases step
    have inside := Nat.lt_of_le_of_lt (Nat.mod_le slot (2 ^ 16)) (freeSlot_eq_some free).1
    have weightless := reusable (fromFound ▸ rfl) (toFound ▸ rfl) slot free
    refine ⟨cached.linkEdge inside (Nat.mod_lt _ (by decide)) weightless (findNode_held fromFound)
      (findNode_held toFound), fun within fits => ?_⟩
    have sums := @SumCell.total_change maxEdges graph
      (graph.linkEdge (asU16 slot) fromIdx toIdx weight) cell (asU16 slot) inside fun edge apart =>
        congrArg cell.part ((linkEdge_linked (asU16 slot) fromIdx toIdx weight).others edge apart)
    rw [part_reusable weightless, linkEdge_part] at sums
    refine sums.le.trans ?_
    split
    · rename_i covers
      rw [← cached.exact within]
      exact fits fromIdx toIdx fromFound toFound (free ▸ rfl) covers
    · exact within

theorem Cached.updateWeight (cached : Cached maxEdges cell graph) {edgeId : Nat} {delta : Int}
    {outcome : GraphOutcome}
    (lowers : LowersWithin maxNodes maxEdges cell graph (.updateWeight edgeId delta, outcome))
    (updated : graph.updateWeight maxEdges edgeId delta = .ok next) :
    Cached maxEdges cell next ∧ (cell.total maxEdges graph ≤ u64Max →
      cell.Fits maxNodes maxEdges graph (.updateWeight edgeId delta, outcome) →
      cell.total maxEdges next ≤ u64Max) := by
  unfold CoherenceGraph.updateWeight at updated
  dsimp only at updated
  split at updated
  · cases updated
  · rename_i present
    cases updated
    obtain ⟨outside, inactive⟩ := not_or.mp present
    have inside := Nat.not_le.mp outside
    have active : (graph.edges edgeId).active = true := by simpa using inactive
    have part := @SumCell.part_le_total maxEdges graph cell edgeId inside
    constructor
    · refine @Cached.setWeight maxEdges graph cell cached edgeId
        (updatedWeight (graph.edges edgeId) delta) inside active (fun sum => saturatingAdd64
          (sum - (graph.edges edgeId).weight) (updatedWeight (graph.edges edgeId) delta))
        fun covers => ?_
      have raised : updatedWeight (graph.edges edgeId) delta < cell.part (graph.edges edgeId) →
          cell.total maxEdges graph ≤ u64Max := fun less =>
        lowers edgeId inside (by simpa [weightAfter] using less)
      rw [SumCell.part_active active, if_pos covers] at part raised
      rw [cached.capped]
      generalize updatedWeight (graph.edges edgeId) delta = updated at raised ⊢
      unfold saturatingAdd64
      omega
    · intro within fits
      have sums := @SumCell.total_change maxEdges graph _ cell edgeId inside
        (@setWeight_others graph cell edgeId (updatedWeight (graph.edges edgeId) delta)
          fun sum => saturatingAdd64 (sum - (graph.edges edgeId).weight)
            (updatedWeight (graph.edges edgeId) delta))
      rw [setWeight_part active, SumCell.part_active active] at sums
      rw [SumCell.part_active active] at part
      by_cases covers : cell.Covers (graph.edges edgeId).fromNode (graph.edges edgeId).toNode
      · rw [if_pos covers] at part
        rw [if_pos covers, if_pos covers] at sums
        have bound : cell.value graph - (graph.edges edgeId).weight +
            updatedWeight (graph.edges edgeId) delta ≤ u64Max := fits inside active covers
        rw [cached.exact within] at bound
        have grown : ∀ {after : Nat}, after + (graph.edges edgeId).weight =
            cell.total maxEdges graph + updatedWeight (graph.edges edgeId) delta →
            after ≤ cell.total maxEdges graph - (graph.edges edgeId).weight +
              updatedWeight (graph.edges edgeId) delta := by omega
        exact (grown sums).trans bound
      · rw [if_neg covers, if_neg covers] at sums
        exact (Nat.add_right_cancel sums).le.trans within

theorem Cached.step {label : GraphCall × GraphOutcome} (cached : Cached maxEdges cell graph)
    (reusable : SlotReusable maxNodes maxEdges graph label)
    (lowers : LowersWithin maxNodes maxEdges cell graph label)
    (step : Step maxNodes maxEdges graph label next) :
    Cached maxEdges cell next ∧ (cell.total maxEdges graph ≤ u64Max →
      cell.Fits maxNodes maxEdges graph label → cell.total maxEdges next ≤ u64Max) := by
  obtain ⟨call, outcome⟩ := label
  cases call with
  | addEdge source target weight => exact cached.addEdge reusable step
  | addNode id =>
    rw [Step, apply] at step
    cases added : graph.addNode maxNodes id with
    | error e =>
      rw [added] at step
      cases step
      exact ⟨cached, fun within _ => within⟩
    | ok result =>
      rw [added] at step
      cases step
      obtain ⟨_, _, _, _, edges, _⟩ := addNode_cases added
      refine ⟨cached.addNode added, fun within _ => ?_⟩
      change ∑ edge ∈ range maxEdges, cell.part (result.2.edges edge) ≤ u64Max
      rw [edges]
      exact within
  | removeNode id =>
    rw [Step, apply] at step
    obtain ⟨result, removed, settledEq⟩ := map_eq_some_iff.mp step
    rcases cached.removeNode lowers removed with rfl | ⟨after, rfl, kept, less⟩
    · cases settledEq
      exact ⟨cached, fun within _ => within⟩
    · cases settledEq
      exact ⟨kept, fun within _ => less.trans within⟩
  | updateWeight edgeId delta =>
    rw [Step, apply] at step
    cases updated : graph.updateWeight maxEdges edgeId delta with
    | error e =>
      rw [updated] at step
      cases step
      exact ⟨cached, fun within _ => within⟩
    | ok result =>
      rw [updated] at step
      cases step
      exact cached.updateWeight lowers updated
  | decayWeights decayBp =>
    rw [Step, apply] at step
    obtain ⟨result, decayed, same⟩ := map_eq_some_iff.mp step
    cases same
    obtain ⟨kept, less⟩ := cached.decayWeights lowers decayed
    exact ⟨kept, fun within _ => less.trans within⟩

theorem Cached.free (cached : Cached maxEdges cell graph) (free : (graph.nodes i).partition = none)
    (touches : ∀ fromIdx toIdx, cell.Covers fromIdx toIdx → fromIdx = i ∨ toIdx = i) :
    cell.value graph = 0 := by
  have vacant : graph.nodeActive i = false := by
    rw [nodeActive, free]
    rfl
  have empty : cell.total maxEdges graph = 0 := ?_
  · rw [cached.capped, empty]
    rfl
  refine sum_eq_zero fun edge member => if_neg fun counted => ?_
  have inside := mem_range.mp member
  rcases touches _ _ counted.2 with starts | ends
  · have held := cached.source edge inside counted.1
    rw [starts, vacant] at held
    cases held
  · have held := cached.target edge inside counted.1
    rw [ends, vacant] at held
    cases held

/-! ### Filling the table -/

/-- The first slots hold edges of at most weight `1`, and each was added once. -/
structure Loaded (maxEdges count : Nat) (graph : CoherenceGraph) : Prop
    extends Filled maxEdges count graph where
  light : ∀ edge, (graph.edges edge).weight ≤ 1
  outgoing : graph.cachedOutgoing 0 = count

theorem Filled.total_le {count : Nat} (filled : Filled maxEdges count graph)
    (light : ∀ edge, (graph.edges edge).weight ≤ 1) (cell : SumCell) :
    cell.total maxEdges graph ≤ count := by
  have parts : ∀ edge ∈ range maxEdges,
      cell.part (graph.edges edge) ≤ if edge < count then 1 else 0 := by
    intro edge member
    have exactly := filled.edges edge (mem_range.mp member)
    rw [SumCell.part]
    split
    · rename_i counted
      rw [if_pos (exactly.mp counted.1)]
      exact light edge
    · exact Nat.zero_le _
  refine (sum_le_sum parts).trans ?_
  rw [← card_filter]
  calc ((range maxEdges).filter (· < count)).card
      ≤ (range count).card := card_le_card fun edge member =>
        mem_range.mpr (mem_filter.mp member).2
    _ = count := card_range count

theorem linkEdge_light (light : ∀ edge, (graph.edges edge).weight ≤ 1) (edge : Nat) :
    ((graph.linkEdge slot 0 0 1).edges edge).weight ≤ 1 := by
  change (update graph.edges slot _ edge).weight ≤ 1
  by_cases here : edge = slot
  · rw [here, update_self]
  · rw [update_of_ne here]
    exact light edge

theorem linkEdge_outgoing {slot count : Nat} (counted : graph.cachedOutgoing 0 = count)
    (small : count < u64Max) : (graph.linkEdge slot 0 0 1).cachedOutgoing 0 = count + 1 := by
  change update graph.cachedOutgoing 0 _ 0 = _
  rw [update_self]
  change saturatingAdd64 (graph.cachedOutgoing 0) 1 = _
  rw [counted]
  exact Nat.min_eq_left small

theorem exists_loaded (count : Nat) (narrow : count ≤ 65536) (room : count ≤ maxEdges) :
    ∃ history graph, Run (Guarded (StepWithin 1 maxEdges) (SlotReusable 1 maxEdges)) .new history
        graph ∧ Loaded maxEdges count graph := by
  have wide : 65536 < u64Max := by decide
  induction count with
  | zero =>
    have loaded : Loaded maxEdges 0 { CoherenceGraph.new with
        nodes := update CoherenceGraph.new.nodes 0 ⟨some ⟨1⟩, invalid⟩
        nodeCount := 1
        idToNode := update CoherenceGraph.new.idToNode (hashOf ⟨1⟩) (some 0) } :=
      ⟨⟨rfl, fun _ _ => iff_of_false (fun active => Bool.noConfusion active) (Nat.not_lt_zero _)⟩,
        fun _ => Nat.zero_le _, rfl⟩
    exact ⟨[(.addNode ⟨1⟩, .ok (.node 0))], _, .single ⟨⟨rfl, fun cell =>
      (loaded.toFilled.total_le loaded.light cell).trans (Nat.zero_le _)⟩, trivial⟩, loaded⟩
  | succ count ih =>
    obtain ⟨history, graph, run, loaded⟩ := ih (by omega) (by omega)
    have step := loaded.addLoop 1 room (Nat.mod_eq_of_lt narrow)
    have after : Loaded maxEdges (count + 1) (graph.linkEdge count 0 0 1) :=
      ⟨loaded.toFilled.linkEdge 1 fun edge => by omega, linkEdge_light loaded.light,
        linkEdge_outgoing loaded.outgoing (by omega)⟩
    refine ⟨_, _, run.snoc ⟨⟨step, fun cell =>
      (after.toFilled.total_le after.light cell).trans (by omega)⟩, fun _ _ slot free => ?_⟩, after⟩
    have index : asU16 count = count := Nat.mod_eq_of_lt narrow
    obtain rfl := some.inj ((loaded.freeSlot room).symm.trans free)
    rw [index]
    exact .inl (freeSlot_eq_some free).2.1

/-! ### Runs -/

theorem cached_run {history : List (GraphCall × GraphOutcome)}
    (run : Run (Guarded (StepWithin maxNodes maxEdges) (SlotReusable maxNodes maxEdges)) .new history
      graph) : Cached maxEdges cell graph ∧ cell.total maxEdges graph ≤ u64Max :=
  @Run.stateInvariant _ _ _ _ _ _
    (fun here => Cached maxEdges cell here ∧ cell.total maxEdges here ≤ u64Max) cached_new
    (fun _ _ _ holds guarded =>
      ⟨(holds.1.step guarded.2 (fun _ _ _ => holds.2) guarded.1.1).1, guarded.1.2 cell⟩) run

/-- While edges take reusable slots and the true sums stay within 64 bits, every
cached sum is the sum over the active edges, and a free node has none. -/
theorem cachedSums_exact {history : List (GraphCall × GraphOutcome)}
    (run : Run (Guarded (StepWithin maxNodes maxEdges) (SlotReusable maxNodes maxEdges)) .new history
      graph) :
    (∀ cell : SumCell, cell.value graph = cell.total maxEdges graph) ∧
      ∀ i, (graph.nodes i).partition = none → graph.cachedOutgoing i = 0 ∧
        graph.cachedIncoming i = 0 ∧ ∀ j, graph.adjMatrix i j = 0 ∧ graph.adjMatrix j i = 0 := by
  refine ⟨fun cell => (cached_run run).1.exact (cached_run run).2, fun i free =>
    ⟨?_, ?_, fun j => ⟨?_, ?_⟩⟩⟩
  · exact (@cached_run _ _ _ (.outgoing i) _ run).1.free free fun _ _ covers => .inl covers
  · exact (@cached_run _ _ _ (.incoming i) _ run).1.free free fun _ _ covers => .inr covers
  · exact (@cached_run _ _ _ (.entry i j) _ run).1.free free fun _ _ covers => .inl covers.1
  · exact (@cached_run _ _ _ (.entry j i) _ run).1.free free fun _ _ covers => .inr covers.2

theorem cachedSums_loops : ∃ history graph,
    Run (Guarded (StepWithin 1 3) (SlotReusable 1 3)) .new history graph ∧ Loaded 3 2 graph ∧
      SumCell.value (.outgoing 0) graph = SumCell.total 3 (.outgoing 0) graph := by
  obtain ⟨history, graph, run, loaded⟩ := @exists_loaded 3 2 (by decide) (by decide)
  exact ⟨history, graph, run, loaded, (cachedSums_exact run).1 _⟩

/-- In a table of `65537` slots the last edge overwrites the first, whose weight
stays in the sums. -/
theorem cachedSums_overwritten :
    ∃ history graph, Run (StepWithin 1 65537) .new history graph ∧
      SumCell.value (.outgoing 0) graph ≠ SumCell.total 65537 (.outgoing 0) graph := by
  obtain ⟨history, graph, run, loaded⟩ := @exists_loaded 65537 65536 le_rfl (by decide)
  have step := loaded.addLoop 1 (by decide) (show asU16 65536 = 0 by decide)
  have value := @linkEdge_outgoing graph 0 65536 loaded.outgoing (by decide)
  have filled : Filled 65537 65536 (graph.linkEdge 0 0 0 1) :=
    loaded.toFilled.linkEdge 1 fun edge => by omega
  have bound := filled.total_le (linkEdge_light loaded.light)
  refine ⟨_, _, (run.mono fun _ _ _ guarded => guarded.1).snoc
    ⟨step, fun cell => (bound cell).trans (by decide)⟩, ?_⟩
  change (graph.linkEdge 0 0 0 1).cachedOutgoing 0 ≠ _
  rw [value]
  exact Nat.ne_of_gt (Nat.lt_succ_of_le (bound _))

end CoherenceGraph

end Rvm.Coherence
