import Rvm.Coherence.EdgeWeights
import Rvm.Coherence.EngineSound

/-!
Owns how the weight from one partition to another can grow, on the active edges or in the
matrix: only recording a communication between the two adds to it, every other operation of the
engine keeps or lowers it.
-/

namespace Rvm.Coherence

open Foundation CoherenceGraph Option CoherenceEngine

namespace CoherenceGraph

/-- The edges and the matrix gained weight between no pair of nodes, except
`grown` ones. -/
structure Lighter (grown : Nat → Nat → Prop) (graph next : CoherenceGraph) : Prop where
  shares : ∀ edge i j, ¬ grown i j → (next.edges edge).share i j ≤ (graph.edges edge).share i j
  matrix : ∀ i j, ¬ grown i j → next.adjMatrix i j ≤ graph.adjMatrix i j

def nowhere (_ _ : Nat) : Prop := False

theorem not_nowhere (i j : Nat) : ¬ nowhere i j := id

variable {maxNodes maxEdges : Nat} {graph next : CoherenceGraph} {grown : Nat → Nat → Prop}

theorem Lighter.refl (graph : CoherenceGraph) : Lighter grown graph graph :=
  ⟨fun _ _ _ _ => Nat.le_refl _, fun _ _ _ => Nat.le_refl _⟩

theorem Lighter.trans {final : CoherenceGraph} (first : Lighter grown graph next)
    (second : Lighter grown next final) : Lighter grown graph final where
  shares edge i j outside := (second.shares edge i j outside).trans (first.shares edge i j outside)
  matrix i j outside := (second.matrix i j outside).trans (first.matrix i j outside)

theorem SameShares.lighter (same : SameShares graph next) : Lighter grown graph next where
  shares edge i j _ := (same.shares edge i j).le
  matrix i j _ := by rw [same.matrix]

variable {i idx toIdx : Nat} {id a b : PartitionId}

theorem Lighter.edgeWeights (lighter : Lighter grown graph next) {j : Nat} (outside : ¬ grown i j) :
    next.edgeWeights maxEdges i j ≤ graph.edgeWeights maxEdges i j :=
  Finset.sum_le_sum fun edge _ => lighter.shares edge i j outside

/-! ### The mutators -/

theorem adjustWeights_lighter (fromIdx toIdx : Nat) {change : Nat → Nat}
    (lowers : ∀ sum, change sum ≤ sum) :
    Lighter grown graph (graph.adjustWeights fromIdx toIdx change) where
  shares _ _ _ _ := Nat.le_refl _
  matrix i j _ := by
    rw [adjustWeights_matrix]
    split
    · exact lowers _
    · exact Nat.le_refl _

theorem setEdge_lighter {edge : Edge}
    (less : ∀ i j, ¬ grown i j → edge.share i j ≤ (graph.edges idx).share i j) :
    Lighter grown graph (graph.setEdge idx edge) where
  shares other i j outside := by
    show (Function.update graph.edges idx edge other).share i j ≤ _
    by_cases here : other = idx
    · rw [here, Function.update_self]
      exact less i j outside
    · rw [Function.update_of_ne here]
  matrix _ _ _ := Nat.le_refl _

theorem removeEdgeByIndex_lighter {edgeIdx : Nat}
    (removed : graph.removeEdgeByIndex maxEdges edgeIdx = some next) : Lighter grown graph next := by
  unfold removeEdgeByIndex at removed
  dsimp only at removed
  split at removed
  · cases removed
    exact .refl graph
  · obtain ⟨unlinked, walked, rfl⟩ := map_eq_some_iff.mp removed
    have lowered : Lighter grown graph unlinked :=
      (adjustWeights_lighter _ _ fun sum => Nat.sub_le sum _).trans
        (unlinkEdge_relinked walked).shares.lighter
    have released : Lighter grown unlinked (unlinked.setEdge edgeIdx
        { unlinked.edges edgeIdx with active := false }) :=
      setEdge_lighter fun i j _ => by simp [Edge.share]
    exact lowered.trans ⟨released.shares, released.matrix⟩

theorem removeIncident_lighter {edge : Nat}
    (visited : graph.removeIncident maxEdges idx edge = some next) : Lighter grown graph next := by
  unfold removeIncident at visited
  dsimp only at visited
  split at visited
  · exact removeEdgeByIndex_lighter visited
  · cases visited
    exact .refl graph

theorem clearNode_lighter (id : PartitionId) (idx : Nat) :
    Lighter grown graph (graph.clearNode id idx) where
  shares _ _ _ _ := Nat.le_refl _
  matrix i j _ := by
    show (if i = idx ∨ j = idx then 0 else graph.adjMatrix i j) ≤ _
    split
    · exact Nat.zero_le _
    · exact Nat.le_refl _

theorem removeNode_lighter (removed : graph.removeNode maxNodes maxEdges id = some (.ok next)) :
    Lighter grown graph next := by
  unfold removeNode at removed
  split at removed
  · cases removed
  · obtain ⟨stripped, swept, cleared⟩ := map_eq_some_iff.mp removed
    cases cleared
    exact (sweep_relates Lighter.refl Lighter.trans removeIncident_lighter swept).trans
      (clearNode_lighter id _)

theorem decayEdge_lighter {decayBp edge : Nat} {state result : CoherenceGraph × Nat}
    (decayed : decayEdge maxEdges decayBp state edge = some result) :
    Lighter grown state.1 result.1 := by
  unfold decayEdge at decayed
  dsimp only at decayed
  split at decayed
  · cases decayed
    exact .refl state.1
  · split at decayed
    · obtain ⟨graph, removed, rfl⟩ := map_eq_some_iff.mp decayed
      exact removeEdgeByIndex_lighter removed
    · cases decayed
      have smaller : min ((state.1.edges edge).weight * (10000 - decayBp)) u64Max / 10000 ≤
          (state.1.edges edge).weight := by
        refine Nat.div_le_of_le_mul ((Nat.min_le_left _ _).trans ?_)
        rw [Nat.mul_comm 10000]
        exact Nat.mul_le_mul_left _ (Nat.sub_le _ _)
      refine (setEdge_lighter fun i j _ => ?_).trans
        (adjustWeights_lighter _ _ fun sum => Nat.sub_le sum _)
      simp only [Edge.share]
      split
      · exact smaller
      · exact Nat.le_refl _

theorem decayWeights_lighter {decayBp : Nat} {result : CoherenceGraph × Nat}
    (decayed : graph.decayWeights maxEdges decayBp = some result) :
    Lighter grown graph result.1 :=
  @sweep_relates _ (graph, 0) Nat (decayEdge maxEdges decayBp)
    (fun here after => Lighter grown here.1 after.1) (fun here => .refl here.1)
    (fun first second => first.trans second) (fun decayed => decayEdge_lighter decayed) _ _ decayed

def joins (fromIdx toIdx i j : Nat) : Prop := i = fromIdx ∧ j = toIdx

theorem adjustWeights_joins (fromIdx toIdx : Nat) (change : Nat → Nat) :
    Lighter (joins fromIdx toIdx) graph (graph.adjustWeights fromIdx toIdx change) where
  shares _ _ _ _ := Nat.le_refl _
  matrix i j outside := by
    have elsewhere : ¬ (i = fromIdx ∧ j = toIdx) := outside
    rw [adjustWeights_matrix, if_neg elsewhere]

theorem share_outside {edge : Edge} {fromIdx j : Nat} (starts : edge.fromNode = fromIdx)
    (ends : edge.toNode = toIdx) (outside : ¬ joins fromIdx toIdx i j) : edge.share i j = 0 :=
  if_neg fun held => outside ⟨held.2.1.symm.trans starts, held.2.2.symm.trans ends⟩

theorem linkEdge_lighter (edgeIdx fromIdx toIdx weight : Nat) :
    Lighter (joins fromIdx toIdx) graph (graph.linkEdge edgeIdx fromIdx toIdx weight) := by
  have linked : Lighter (joins fromIdx toIdx) graph (graph.setEdge edgeIdx
      ⟨fromIdx, toIdx, weight, (graph.nodes fromIdx).firstEdge, true⟩) :=
    setEdge_lighter fun i j outside => (share_outside rfl rfl outside).le.trans (Nat.zero_le _)
  unfold linkEdge
  refine Lighter.trans ?_ (adjustWeights_joins fromIdx toIdx _)
  exact ⟨linked.shares, linked.matrix⟩

theorem addEdge_lighter {source target : PartitionId} {weight edgeId fromIdx : Nat}
    (sourceFound : graph.findNode maxNodes source = some fromIdx)
    (targetFound : graph.findNode maxNodes target = some toIdx)
    (added : graph.addEdge maxNodes maxEdges source target weight = .ok (edgeId, next)) :
    Lighter (joins fromIdx toIdx) graph next := by
  unfold addEdge at added
  rw [sourceFound, targetFound] at added
  dsimp only at added
  split at added
  · cases added
  · cases added
    exact linkEdge_lighter _ fromIdx toIdx weight

theorem updateWeight_lighter {edgeId : Nat} {delta : Int}
    (updated : graph.updateWeight maxEdges edgeId delta = .ok next) :
    Lighter (joins (graph.edges edgeId).fromNode (graph.edges edgeId).toNode) graph next := by
  unfold updateWeight at updated
  dsimp only at updated
  split at updated
  · cases updated
  · cases updated
    refine Lighter.trans (setEdge_lighter fun i j outside => ?_) (adjustWeights_joins _ _ _)
    refine Nat.le_trans (Nat.le_of_eq (share_outside ?_ ?_ outside)) (Nat.zero_le _)
    · rfl
    · rfl

/-! ### The edge between two partitions -/

theorem edgeTo_some {fuel cur found : Nat} {cells : List Nat}
    (threads : Threads graph.successor invalid cur cells)
    (walked : graph.edgeTo maxEdges toIdx fuel cur = some (some found)) :
    found ∈ cells ∧ (graph.edges found).toNode = toIdx := by
  induction fuel generalizing cur cells with
  | zero => cases walked
  | succ fuel ih =>
    rw [edgeTo] at walked
    split at walked
    · cases walked
    · rename_i inside
      cases cells with
      | nil => exact absurd (.inl threads) inside
      | cons head rest =>
        obtain ⟨rfl, _, later⟩ := threads
        split at walked
        · rename_i matching
          cases walked
          exact ⟨List.mem_cons_self, matching.2⟩
        · obtain ⟨member, ends⟩ := ih later walked
          exact ⟨List.mem_cons_of_mem _ member, ends⟩

theorem WellFormed.findDirectedEdge_some (formed : WellFormed maxNodes maxEdges graph)
    {source target : PartitionId} {edgeIdx : Nat}
    (found : graph.findDirectedEdge maxNodes maxEdges source target = some (some edgeIdx)) :
    graph.findNode maxNodes source = some (graph.edges edgeIdx).fromNode ∧
      graph.findNode maxNodes target = some (graph.edges edgeIdx).toNode := by
  unfold findDirectedEdge at found
  split at found
  · rename_i fromIdx toIdx sourceFound targetFound
    split at found
    · cases found
    · obtain ⟨cells, threads, _, members⟩ := formed.list (formed.findNode_some sourceFound).1
      obtain ⟨member, ends⟩ := edgeTo_some threads found
      obtain ⟨_, _, starts⟩ := (members edgeIdx).mp member
      rw [sourceFound, targetFound, starts, ends]
      exact ⟨rfl, rfl⟩
  · cases found

/-! ### Weights of partitions -/

/-- A weight kept for pairs of nodes, read for two partitions. -/
def weightOf (maxNodes : Nat) (graph : CoherenceGraph) (weights : Nat → Nat → Nat)
    (a b : PartitionId) : Nat :=
  match graph.findNode maxNodes a, graph.findNode maxNodes b with
  | some i, some j => weights i j
  | _, _ => 0

def edgeWeight (maxNodes maxEdges : Nat) (graph : CoherenceGraph) (a b : PartitionId) : Nat :=
  graph.weightOf maxNodes (graph.edgeWeights maxEdges) a b

def matrixWeight (maxNodes : Nat) (graph : CoherenceGraph) (a b : PartitionId) : Nat :=
  graph.weightOf maxNodes graph.adjMatrix a b

def Grew (maxNodes maxEdges : Nat) (a b : PartitionId) (graph next : CoherenceGraph) : Prop :=
  graph.edgeWeight maxNodes maxEdges a b < next.edgeWeight maxNodes maxEdges a b ∨
    graph.matrixWeight maxNodes a b < next.matrixWeight maxNodes a b

/-- The rows and columns of nodes without a partition are empty. -/
def Zeroed (graph : CoherenceGraph) : Prop :=
  ∀ i, graph.nodeActive i = false → ∀ j, graph.adjMatrix i j = 0 ∧ graph.adjMatrix j i = 0

theorem zeroed_new : Zeroed .new := fun _ _ _ => ⟨rfl, rfl⟩

theorem WellFormed.edgeWeights_free (formed : WellFormed maxNodes maxEdges graph)
    (free : graph.nodeActive i = false) (j : Nat) :
    graph.edgeWeights maxEdges i j = 0 ∧ graph.edgeWeights maxEdges j i = 0 := by
  have apart : ∀ {edge}, edge < maxEdges → (graph.edges edge).active = true →
      (graph.edges edge).fromNode ≠ i ∧ (graph.edges edge).toNode ≠ i := by
    intro edge inside active
    constructor
    · intro starts
      have held := (formed.source edge inside active).2
      rw [starts, free] at held
      cases held
    · intro ends
      have held := (formed.target edge inside active).2
      rw [ends, free] at held
      cases held
  constructor
  · refine Finset.sum_eq_zero fun edge member => if_neg fun held => ?_
    exact (apart (Finset.mem_range.mp member) held.1).1 held.2.1
  · refine Finset.sum_eq_zero fun edge member => if_neg fun held => ?_
    exact (apart (Finset.mem_range.mp member) held.1).2 held.2.2

/-- Where a weight does not grow between nodes, and nodes that a partition gets
had none, it does not grow between partitions. -/
theorem weightOf_le {weights after : Nat → Nat → Nat}
    (kept : ∀ id i, next.findNode maxNodes id = some i →
      graph.findNode maxNodes id = some i ∨ ∀ j, after i j = 0 ∧ after j i = 0)
    (lower : ∀ i j, next.findNode maxNodes a = some i → next.findNode maxNodes b = some j →
      after i j ≤ weights i j) :
    next.weightOf maxNodes after a b ≤ graph.weightOf maxNodes weights a b := by
  unfold weightOf
  cases aFound : next.findNode maxNodes a with
  | none => exact Nat.zero_le _
  | some i =>
    cases bFound : next.findNode maxNodes b with
    | none => exact Nat.zero_le _
    | some j =>
      show after i j ≤ _
      rcases kept a i aFound with aKept | blank
      · rcases kept b j bFound with bKept | blank
        · rw [aKept, bKept]
          exact lower i j aFound bFound
        · rw [(blank i).2]
          exact Nat.zero_le _
      · rw [(blank j).1]
        exact Nat.zero_le _

theorem Lighter.not_grew (lighter : Lighter grown graph next)
    (kept : ∀ id i, next.findNode maxNodes id = some i → graph.findNode maxNodes id = some i ∨
      ∀ j, (next.edgeWeights maxEdges i j = 0 ∧ next.edgeWeights maxEdges j i = 0) ∧
        next.adjMatrix i j = 0 ∧ next.adjMatrix j i = 0)
    (apart : ∀ i j, next.findNode maxNodes a = some i → next.findNode maxNodes b = some j →
      ¬ grown i j) : ¬ Grew maxNodes maxEdges a b graph next := by
  rintro (edges | matrix)
  · refine absurd edges (Nat.not_lt.mpr (weightOf_le (fun id i found => ?_) fun i j left right => ?_))
    · exact (kept id i found).imp_right fun blank j => (blank j).1
    · exact lighter.edgeWeights (apart i j left right)
  · refine absurd matrix (Nat.not_lt.mpr (weightOf_le (fun id i found => ?_) fun i j left right => ?_))
    · exact (kept id i found).imp_right fun blank j => (blank j).2
    · exact lighter.matrix i j (apart i j left right)

theorem Zeroed.lighter (zeroed : Zeroed graph) (lighter : Lighter grown graph next)
    (inactive : ∀ i, next.nodeActive i = false → graph.nodeActive i = false)
    (ends : ∀ i j, grown i j → next.nodeActive i = true ∧ next.nodeActive j = true) :
    Zeroed next := by
  intro i free j
  obtain ⟨row, column⟩ := zeroed i (inactive i free) j
  have outRow : ¬ grown i j := fun both => by
    rw [(ends i j both).1] at free
    cases free
  have outColumn : ¬ grown j i := fun both => by
    rw [(ends j i both).2] at free
    cases free
  exact ⟨Nat.le_zero.mp (row ▸ lighter.matrix i j outRow),
    Nat.le_zero.mp (column ▸ lighter.matrix j i outColumn)⟩

/-! ### Where the nodes stay -/

theorem WellFormed.findNode_of_held (formed : WellFormed maxNodes maxEdges graph)
    (inside : i < maxNodes) (held : (graph.nodes i).partition = some id) :
    graph.findNode maxNodes id = some i := by
  cases found : graph.findNode maxNodes id with
  | none => exact absurd held (formed.findNode_none found inside)
  | some j =>
    obtain ⟨jInside, jHeld⟩ := formed.findNode_some found
    rw [formed.ids i j id inside jInside held jHeld]

theorem WellFormed.findNode_injective (formed : WellFormed maxNodes maxEdges graph)
    (aFound : graph.findNode maxNodes a = some i) (bFound : graph.findNode maxNodes b = some i) :
    a = b :=
  some.inj ((formed.findNode_some aFound).2.symm.trans (formed.findNode_some bFound).2)

theorem SameNodes.findNode (same : SameNodes graph next)
    (formed : WellFormed maxNodes maxEdges graph) (after : WellFormed maxNodes maxEdges next)
    (found : next.findNode maxNodes id = some i) : graph.findNode maxNodes id = some i := by
  obtain ⟨inside, held⟩ := after.findNode_some found
  exact formed.findNode_of_held inside (same i ▸ held)

theorem SameNodes.nodeActive (same : SameNodes graph next) (i : Nat) :
    next.nodeActive i = graph.nodeActive i := by
  rw [CoherenceGraph.nodeActive, same i, CoherenceGraph.nodeActive]

theorem removeNode_cleared (found : graph.findNode maxNodes id = some idx)
    (removed : graph.removeNode maxNodes maxEdges id = some (.ok next)) (j : Nat) :
    next.adjMatrix idx j = 0 ∧ next.adjMatrix j idx = 0 := by
  unfold removeNode at removed
  rw [found] at removed
  obtain ⟨stripped, _, cleared⟩ := map_eq_some_iff.mp removed
  cases cleared
  exact ⟨if_pos (.inl rfl), if_pos (.inr rfl)⟩

end CoherenceGraph

namespace CoherenceEngine

open CoherenceGraph (not_nowhere)

variable {engine after : CoherenceEngine} {a b : PartitionId}

def Grew (a b : PartitionId) (engine after : CoherenceEngine) : Prop :=
  CoherenceGraph.Grew engineMaxNodes engineMaxEdges a b engine.graph after.graph

theorem not_grew_of_same (same : after.graph = engine.graph) : ¬ Grew a b engine after := by
  rw [Grew, same]
  rintro (grew | grew)
  · exact Nat.lt_irrefl _ grew
  · exact Nat.lt_irrefl _ grew

/-- A sound graph without weight at free nodes. -/
structure Weighing (engine : CoherenceEngine) : Prop where
  sound : engine.Sound
  zeroed : engine.graph.Zeroed

theorem weighing_new : Weighing .new := ⟨sound_new, zeroed_new⟩

/-- A change that keeps the nodes, and adds weight between known nodes only. -/
theorem Weighing.sameNodes {grown : Nat → Nat → Prop} (weighing : engine.Weighing)
    (sound : after.Sound) (same : engine.graph.SameNodes after.graph)
    (lighter : CoherenceGraph.Lighter grown engine.graph after.graph)
    (ends : ∀ i j, grown i j → ∃ source target,
      engine.graph.findNode engineMaxNodes source = some i ∧
        engine.graph.findNode engineMaxNodes target = some j) :
    after.Weighing ∧ ∀ a b, Grew a b engine after → ∃ i j, grown i j ∧
      engine.graph.findNode engineMaxNodes a = some i ∧
        engine.graph.findNode engineMaxNodes b = some j := by
  have active : ∀ {id i}, engine.graph.findNode engineMaxNodes id = some i →
      after.graph.nodeActive i = true := by
    intro id i found
    rw [same.nodeActive, nodeActive, (weighing.sound.findNode_some found).2]
    rfl
  refine ⟨⟨sound, weighing.zeroed.lighter lighter (fun i free => ?_) fun i j both => ?_⟩,
    fun a b grew => ?_⟩
  · rw [← same.nodeActive, free]
  · obtain ⟨source, target, sourceFound, targetFound⟩ := ends i j both
    exact ⟨active sourceFound, active targetFound⟩
  · by_contra elsewhere
    refine lighter.not_grew (fun id i found => .inl ?_) (fun i j aFound bFound both => ?_) grew
    · exact same.findNode weighing.sound.toWellFormed sound.toWellFormed found
    · exact elsewhere ⟨i, j, both,
        same.findNode weighing.sound.toWellFormed sound.toWellFormed aFound,
        same.findNode weighing.sound.toWellFormed sound.toWellFormed bFound⟩

theorem tick_graph {cpuLoadPercent : Nat} {decision : CoherenceDecision}
    (ticked : engine.tick cpuLoadPercent = some (decision, after)) :
    ∃ pruned, engine.graph.decayWeights engineMaxEdges edgeDecayBp = some (after.graph, pruned) := by
  unfold tick advance at ticked
  obtain ⟨advanced, walked, finished⟩ := map_eq_some_iff.mp ticked
  obtain ⟨⟨graph, pruned⟩, decayed, rfl⟩ := map_eq_some_iff.mp walked
  refine ⟨pruned, ?_⟩
  dsimp only at finished
  split at finished
  · cases finished
    exact decayed
  · cases finished
    exact decayed

theorem Weighing.tick (weighing : engine.Weighing) {cpuLoadPercent : Nat}
    {decision : CoherenceDecision} (ticked : engine.tick cpuLoadPercent = some (decision, after)) :
    after.Weighing ∧ ∀ a b, ¬ Grew a b engine after := by
  obtain ⟨_, _, returned, sound, same⟩ := Sound.tick weighing.sound cpuLoadPercent
  cases ticked.symm.trans returned
  obtain ⟨pruned, decayed⟩ := tick_graph ticked
  have lighter : CoherenceGraph.Lighter nowhere engine.graph after.graph :=
    decayWeights_lighter decayed
  obtain ⟨kept, grows⟩ := weighing.sameNodes sound same lighter fun _ _ never => never.elim
  refine ⟨kept, fun a b grew => ?_⟩
  obtain ⟨_, _, never, _⟩ := grows a b grew
  exact never

theorem Weighing.removePartition (weighing : engine.Weighing) {id : PartitionId}
    {result : Except RvmError Unit} (removed : engine.removePartition id = some (result, after)) :
    after.Weighing ∧ ∀ a b, ¬ Grew a b engine after := by
  obtain ⟨_, _, returned, sound, _⟩ := Sound.removePartition weighing.sound id
  cases removed.symm.trans returned
  unfold CoherenceEngine.removePartition at removed
  rcases CoherenceGraph.Sound.removeNode weighing.sound id with
    ⟨_, missing⟩ | ⟨idx, graph, found, stripped, graphSound, emptied, kept⟩
  · rw [missing] at removed
    cases removed
    exact ⟨weighing, fun _ _ => not_grew_of_same rfl⟩
  · rw [stripped] at removed
    cases removed
    have cleared := @clearEntry_graph { engine with graph := graph } id
    have lighter : CoherenceGraph.Lighter nowhere engine.graph graph :=
      removeNode_lighter stripped
    have before : ∀ {i other}, (graph.nodes i).partition = some other →
        (engine.graph.nodes i).partition = some other := by
      intro i other held
      by_cases here : i = idx
      · rw [here, emptied] at held
        cases held
      · rwa [← kept i here]
    refine ⟨⟨sound, ?_⟩, fun a b grew => ?_⟩
    · rw [cleared]
      intro i free j
      by_cases here : i = idx
      · rw [here]
        exact removeNode_cleared found stripped j
      · have wasFree : engine.graph.nodeActive i = false := by
          rwa [nodeActive, ← kept i here]
        obtain ⟨row, column⟩ := weighing.zeroed i wasFree j
        exact ⟨Nat.le_zero.mp (row ▸ lighter.matrix i j (not_nowhere i j)),
          Nat.le_zero.mp (column ▸ lighter.matrix j i (not_nowhere j i))⟩
    · rw [Grew, cleared] at grew
      refine lighter.not_grew (fun other i held => .inl ?_) (fun i j _ _ => not_nowhere i j) grew
      obtain ⟨inside, heldHere⟩ := graphSound.findNode_some held
      exact weighing.sound.findNode_of_held inside (before heldHere)

theorem Weighing.addPartition (weighing : engine.Weighing) (id : PartitionId) :
    (engine.addPartition id).2.Weighing ∧ ∀ a b, ¬ Grew a b engine (engine.addPartition id).2 := by
  have sound := (Sound.addPartition weighing.sound id).1
  cases added : engine.graph.addNode engineMaxNodes id with
  | error e =>
    unfold CoherenceEngine.addPartition
    rw [added]
    cases e <;> exact ⟨weighing, fun _ _ => not_grew_of_same rfl⟩
  | ok placed =>
    obtain ⟨slot, graph⟩ := placed
    have graphSame : (engine.addPartition id).2.graph = graph := by
      unfold CoherenceEngine.addPartition
      rw [added]
      dsimp only
      split <;> rfl
    have graphSound := CoherenceGraph.Sound.addNode weighing.sound added
    have lighter : CoherenceGraph.Lighter nowhere engine.graph graph :=
      (addNode_shares added).lighter
    obtain ⟨_, _, free, nodes, _⟩ := addNode_cases added
    have slotFree : engine.graph.nodeActive slot = false := by
      rw [nodeActive, free]
      rfl
    have elsewhere : ∀ i, i ≠ slot → graph.nodes i = engine.graph.nodes i := fun i apart => by
      rw [nodes, Function.update_of_ne apart]
    have inactive : ∀ i, graph.nodeActive i = false → engine.graph.nodeActive i = false := by
      intro i isFree
      by_cases here : i = slot
      · rw [here, slotFree]
      · rwa [nodeActive, ← elsewhere i here]
    refine ⟨⟨sound, ?_⟩, fun a b grew => ?_⟩
    · rw [graphSame]
      exact weighing.zeroed.lighter lighter inactive fun _ _ never => never.elim
    · rw [Grew, graphSame] at grew
      refine lighter.not_grew (fun other i held => ?_) (fun i j _ _ => not_nowhere i j) grew
      obtain ⟨inside, heldHere⟩ := graphSound.findNode_some held
      by_cases here : i = slot
      · refine .inr fun j => ?_
        obtain ⟨edgeRow, edgeColumn⟩ := weighing.sound.edgeWeights_free slotFree j
        obtain ⟨row, column⟩ := weighing.zeroed slot slotFree j
        rw [here]
        exact ⟨⟨Nat.le_zero.mp (edgeRow ▸ lighter.edgeWeights (not_nowhere _ _)),
          Nat.le_zero.mp (edgeColumn ▸ lighter.edgeWeights (not_nowhere _ _))⟩,
          Nat.le_zero.mp (row ▸ lighter.matrix slot j (not_nowhere slot j)),
          Nat.le_zero.mp (column ▸ lighter.matrix j slot (not_nowhere j slot))⟩
      · rw [elsewhere i here] at heldHere
        exact .inl (weighing.sound.findNode_of_held inside heldHere)

theorem recordCommunication_failed {source target : PartitionId} {weight : Nat} {e : RvmError}
    (failed : engine.recordCommunication source target weight = some (.error e, after)) :
    after = engine := by
  unfold recordCommunication at failed
  obtain ⟨found, _, finished⟩ := map_eq_some_iff.mp failed
  cases found with
  | some edgeIdx =>
    dsimp only at finished
    split at finished
    · cases finished
    · cases finished
      rfl
  | none =>
    dsimp only at finished
    split at finished
    · cases finished
    all_goals
      cases finished
      rfl

theorem Weighing.recordCommunication (weighing : engine.Weighing) {source target : PartitionId}
    {weight : Nat} {result : Except RvmError Unit}
    (recorded : engine.recordCommunication source target weight = some (result, after)) :
    after.Weighing ∧ ∀ a b, Grew a b engine after → a = source ∧ b = target := by
  obtain ⟨_, _, returned, sound, same⟩ :=
    Sound.recordCommunication weighing.sound source target weight
  cases recorded.symm.trans returned
  have between : ∃ fromIdx toIdx,
      CoherenceGraph.Lighter (joins fromIdx toIdx) engine.graph after.graph ∧
        (after.graph = engine.graph ∨
          engine.graph.findNode engineMaxNodes source = some fromIdx ∧
            engine.graph.findNode engineMaxNodes target = some toIdx) := by
    unfold CoherenceEngine.recordCommunication at recorded
    obtain ⟨found, walked, finished⟩ := map_eq_some_iff.mp recorded
    cases found with
    | some edgeIdx =>
      dsimp only at finished
      split at finished
      · rename_i graph updated
        cases finished
        exact ⟨_, _, updateWeight_lighter updated,
          .inr (weighing.sound.findDirectedEdge_some walked)⟩
      · cases finished
        exact ⟨0, 0, .refl _, .inl rfl⟩
    | none =>
      dsimp only at finished
      split at finished
      · rename_i edgeId graph added
        cases finished
        rcases addEdge_cases engine.graph source target weight with
          ⟨⟨e, failed⟩, _⟩ | ⟨fromIdx, toIdx, _, sourceFound, targetFound, _⟩
        · rw [added] at failed
          cases failed
        · exact ⟨fromIdx, toIdx,
            addEdge_lighter sourceFound targetFound added,
            .inr ⟨sourceFound, targetFound⟩⟩
      all_goals
        cases finished
        exact ⟨0, 0, .refl _, .inl rfl⟩
  obtain ⟨fromIdx, toIdx, lighter, unchanged | ⟨sourceFound, targetFound⟩⟩ := between
  · exact ⟨⟨sound, unchanged ▸ weighing.zeroed⟩,
      fun _ _ grew => absurd grew (not_grew_of_same unchanged)⟩
  · obtain ⟨kept, grows⟩ := weighing.sameNodes sound same lighter fun i j both => by
      rw [both.1, both.2]
      exact ⟨source, target, sourceFound, targetFound⟩
    refine ⟨kept, fun a b grew => ?_⟩
    obtain ⟨i, j, ⟨rfl, rfl⟩, aFound, bFound⟩ := grows a b grew
    exact ⟨weighing.sound.findNode_injective aFound sourceFound,
      weighing.sound.findNode_injective bFound targetFound⟩

end CoherenceEngine

end Rvm.Coherence
