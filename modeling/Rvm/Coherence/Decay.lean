import Rvm.Coherence.CachedSums

/-!
Owns the decay of all weights of the coherence graph: what one pass leaves of
edges, nodes and lists for a rate, and when the saturating product computes the
exact rate.
-/

namespace Rvm.Coherence

open Foundation Function

/-- The exact rate: the share that the basis points leave, rounded down. -/
def exactRate (decayBp weight : Nat) : Nat := weight * (10000 - decayBp) / 10000

def saturatedRate (decayBp weight : Nat) : Nat := min (weight * (10000 - decayBp)) u64Max / 10000

namespace CoherenceGraph

/-- After the first `swept` slots: their edges have the weight of the rate, those
whose weight is then zero are gone and counted, and nothing else is changed. -/
structure Decaying (rate : Nat → Nat) (maxNodes maxEdges : Nat) (graph : CoherenceGraph)
    (swept : Nat) (here : CoherenceGraph × Nat) : Prop where
  sound : Sound maxNodes maxEdges here.1
  active : ∀ edge, here.1.edgeActive edge = true ↔
    graph.edgeActive edge = true ∧ (edge < swept → rate (graph.edges edge).weight ≠ 0)
  fromNode : ∀ edge, (here.1.edges edge).fromNode = (graph.edges edge).fromNode
  toNode : ∀ edge, (here.1.edges edge).toNode = (graph.edges edge).toNode
  weight : ∀ edge, here.1.edgeActive edge = true → (here.1.edges edge).weight =
    if edge < swept then rate (graph.edges edge).weight else (graph.edges edge).weight
  partitions : ∀ node, (here.1.nodes node).partition = (graph.nodes node).partition
  nodeCount : here.1.nodeCount = graph.nodeCount
  count : here.2 = asU16 (occupied swept fun edge =>
    graph.edgeActive edge && decide (rate (graph.edges edge).weight = 0))

/-- A pass at a rate: an edge stays exactly when its new weight is not zero, with
its ends and on the list of its source; nodes stay, and the others are counted. -/
structure Decays (rate : Nat → Nat) (maxNodes maxEdges : Nat) (graph : CoherenceGraph)
    (result : CoherenceGraph × Nat) : Prop where
  active : ∀ edge, edge < maxEdges → (result.1.edgeActive edge = true ↔
    graph.edgeActive edge = true ∧ rate (graph.edges edge).weight ≠ 0)
  weight : ∀ edge, edge < maxEdges → result.1.edgeActive edge = true →
    (result.1.edges edge).fromNode = (graph.edges edge).fromNode ∧
      (result.1.edges edge).toNode = (graph.edges edge).toNode ∧
      (result.1.edges edge).weight = rate (graph.edges edge).weight
  nodes : ∀ node, (result.1.nodes node).partition = (graph.nodes node).partition
  found : ∀ id, result.1.findNode maxNodes id = graph.findNode maxNodes id
  nodeCount : result.1.nodeCount = graph.nodeCount
  lists : ∀ node, node < maxNodes → ∃ cells kept, graph.Adjacency node cells ∧
    result.1.Adjacency node kept ∧
    ∀ edge, edge ∈ kept ↔ edge ∈ cells ∧ rate (graph.edges edge).weight ≠ 0
  count : result.2 = occupied maxEdges fun edge =>
    graph.edgeActive edge && decide (rate (graph.edges edge).weight = 0)

variable {maxNodes maxEdges : Nat} {graph next : CoherenceGraph} {decayBp : Nat}

theorem decayEdge_eq (here : CoherenceGraph × Nat) (edge : Nat) :
    decayEdge maxEdges decayBp here edge =
      let weight := (here.1.edges edge).weight
      let rated := saturatedRate decayBp weight
      if (here.1.edges edge).active = false then some here
      else if rated = 0 then
        (here.1.removeEdgeByIndex maxEdges (asU16 edge)).map fun graph =>
          (graph, asU16 (here.2 + 1))
      else some ((here.1.setEdge edge { here.1.edges edge with weight := rated }).adjustWeights
        (here.1.edges edge).fromNode (here.1.edges edge).toNode fun sum => sum - (weight - rated),
        here.2) :=
  rfl

theorem removeEdgeByIndex_weight {gone : Nat}
    (removed : graph.removeEdgeByIndex maxEdges gone = some next) (edge : Nat) :
    (next.edges edge).weight = (graph.edges edge).weight := by
  unfold CoherenceGraph.removeEdgeByIndex at removed
  dsimp only at removed
  split at removed
  · cases removed
    rfl
  · obtain ⟨unlinked, walked, rfl⟩ := Option.map_eq_some_iff.mp removed
    exact (releaseEdge_field Edge.weight (fun _ => rfl) gone edge).trans
      ((unlinkEdge_relinked walked).weight edge)

theorem Decaying.visit {edge : Nat} {here : CoherenceGraph × Nat}
    (decaying : Decaying (saturatedRate decayBp) maxNodes maxEdges graph edge here)
    (inside : edge < maxEdges) :
    ∃ after, decayEdge maxEdges decayBp here edge = some after ∧
      Decaying (saturatedRate decayBp) maxNodes maxEdges graph (edge + 1) after := by
  have later : ∀ {other}, other ≠ edge → (other < edge + 1 ↔ other < edge) := by omega
  have sameActive : here.1.edgeActive edge = graph.edgeActive edge := by
    rw [Bool.eq_iff_iff, decaying.active]
    exact and_iff_left fun below => absurd below (lt_irrefl edge)
  rw [decayEdge_eq]
  dsimp only
  by_cases inactive : (here.1.edges edge).active = false
  · rw [if_pos inactive]
    have idle : graph.edgeActive edge = false := sameActive.symm.trans inactive
    refine ⟨here, rfl, decaying.sound, fun other => ?_, decaying.fromNode, decaying.toNode,
      fun other active => ?_, decaying.partitions, decaying.nodeCount, ?_⟩
    · rw [decaying.active]
      by_cases this : other = edge
      · rw [this, idle]
        simp
      · rw [later this]
    · have apart : other ≠ edge := by
        intro this
        rw [this, edgeActive, inactive] at active
        cases active
      rw [decaying.weight other active, if_congr (later apart) rfl rfl]
    · rw [decaying.count, occupied_succ, idle]
      rfl
  · rw [if_neg inactive]
    have active : here.1.edgeActive edge = true := by simpa [edgeActive] using inactive
    have present : graph.edgeActive edge = true := sameActive.symm.trans active
    have weight : (here.1.edges edge).weight = (graph.edges edge).weight := by
      rw [decaying.weight edge active, if_neg (lt_irrefl edge)]
    rw [weight]
    by_cases vanishes : saturatedRate decayBp (graph.edges edge).weight = 0
    · rw [if_pos vanishes]
      obtain ⟨next, removed, dropped, after⟩ := decaying.sound.removeEdgeByIndex inside active
      refine ⟨(next, asU16 (here.2 + 1)), by rw [removed]; rfl, after, fun other => ?_, fun other => ?_,
        fun other => ?_, fun other stays => ?_, fun node => ?_, ?_, ?_⟩
      · rw [dropped.active, decaying.active]
        by_cases this : other = edge
        · rw [this]
          simp [vanishes]
        · rw [later this]
          simp [this]
      · rw [dropped.fromNode, decaying.fromNode]
      · rw [dropped.toNode, decaying.toNode]
      · obtain ⟨before, apart⟩ := (dropped.active other).mp stays
        rw [removeEdgeByIndex_weight removed, decaying.weight other before,
          if_congr (later apart) rfl rfl]
      · rw [dropped.partitions, decaying.partitions]
      · rw [dropped.nodeCount, decaying.nodeCount]
      · rw [decaying.count, occupied_succ, present, decide_eq_true vanishes]
        exact Nat.mod_add_mod _ 65536 1
    · rw [if_neg vanishes]
      have shape := @setWeight_shape here.1 edge (saturatedRate decayBp (graph.edges edge).weight)
        (here.1.edges edge).fromNode (here.1.edges edge).toNode fun sum =>
          sum - ((graph.edges edge).weight - saturatedRate decayBp (graph.edges edge).weight)
      refine ⟨_, rfl, shape.sound decaying.sound, fun other => ?_, fun other => ?_, fun other => ?_,
        fun other stays => ?_, decaying.partitions, decaying.nodeCount, ?_⟩
      · refine (Bool.eq_iff_iff.mp (shape.active other)).trans ((decaying.active other).trans ?_)
        by_cases this : other = edge
        · rw [this]
          simp [vanishes]
        · rw [later this]
      · exact (shape.fromNode other).trans (decaying.fromNode other)
      · exact (shape.toNode other).trans (decaying.toNode other)
      · change (update here.1.edges edge _ other).weight = _
        by_cases this : other = edge
        · subst this
          rw [update_self, if_pos (Nat.lt_succ_self other)]
        · rw [update_of_ne this, if_congr (later this) rfl rfl]
          exact decaying.weight other ((shape.active other).symm.trans stays)
      · rw [decaying.count, occupied_succ, present, decide_eq_false vanishes]
        rfl

theorem Sound.decays (sound : Sound maxNodes maxEdges graph) (decayBp : Nat) :
    ∃ result, graph.decayWeights maxEdges decayBp = some result ∧
      Decaying (saturatedRate decayBp) maxNodes maxEdges graph maxEdges result := by
  have start : Decaying (saturatedRate decayBp) maxNodes maxEdges graph 0 (graph, 0) :=
    ⟨sound, fun edge => (and_iff_left fun below => absurd below (Nat.not_lt_zero edge)).symm,
      fun _ => rfl, fun _ => rfl, fun _ _ => rfl, fun _ => rfl, rfl, rfl⟩
  exact @sweep_returns _ maxEdges (Decaying (saturatedRate decayBp) maxNodes maxEdges graph) _ _ start
    fun edge here inside decaying => decaying.visit inside

theorem Decaying.decays {rate : Nat → Nat} {result : CoherenceGraph × Nat}
    (sound : Sound maxNodes maxEdges graph)
    (decaying : Decaying rate maxNodes maxEdges graph maxEdges result) :
    Decays rate maxNodes maxEdges graph result where
  active edge inside := by
    rw [decaying.active]
    exact and_congr_right fun _ => ⟨fun held => held inside, fun held _ => held⟩
  weight edge inside active := by
    rw [decaying.weight edge active, if_pos inside]
    exact ⟨decaying.fromNode edge, decaying.toNode edge, rfl⟩
  nodes := decaying.partitions
  found id := by
    rw [decaying.sound.findNode_eq, sound.findNode_eq, scanNode, scanNode]
    simp only [decaying.partitions]
  nodeCount := decaying.nodeCount
  lists node inside := by
    obtain ⟨cells, threads, _, members⟩ := sound.lists node inside
    obtain ⟨kept, keptThreads, _, keptMembers⟩ := decaying.sound.lists node inside
    refine ⟨cells, kept, threads, keptThreads, fun edge => ?_⟩
    rw [members, keptMembers, decaying.active, decaying.fromNode]
    constructor
    · rintro ⟨below, ⟨active, stays⟩, starts⟩
      exact ⟨⟨below, active, starts⟩, stays below⟩
    · rintro ⟨⟨below, active, starts⟩, stays⟩
      exact ⟨below, ⟨active, fun _ => stays⟩, starts⟩
  count := by
    rw [decaying.count]
    apply Nat.mod_eq_of_lt
    apply (@occupied_le_of_below _ _ invalid fun edge inside gone => ?_).trans_lt
    · decide
    · exact sound.below edge inside ((Bool.and_eq_true_iff.mp gone).1)

theorem saturatedRate_eq_iff {weight : Nat} :
    saturatedRate decayBp weight = exactRate decayBp weight ↔
      exactRate decayBp weight ≤ u64Max / 10000 := by
  unfold saturatedRate exactRate
  omega

theorem Decays.congr {rate other : Nat → Nat} {result : CoherenceGraph × Nat}
    (decays : Decays rate maxNodes maxEdges graph result)
    (sound : Sound maxNodes maxEdges graph)
    (same : ∀ edge, edge < maxEdges → graph.edgeActive edge = true →
      rate (graph.edges edge).weight = other (graph.edges edge).weight) :
    Decays other maxNodes maxEdges graph result where
  active edge inside := by
    rw [decays.active edge inside]
    exact and_congr_right fun active => by rw [same edge inside active]
  weight edge inside active := by
    obtain ⟨fromNode, toNode, weight⟩ := decays.weight edge inside active
    exact ⟨fromNode, toNode, weight.trans (same edge inside
      ((decays.active edge inside).mp active).1)⟩
  nodes := decays.nodes
  found := decays.found
  nodeCount := decays.nodeCount
  lists node inside := by
    obtain ⟨cells, kept, threads, keptThreads, members⟩ := decays.lists node inside
    obtain ⟨others, otherThreads, _, listed⟩ := sound.lists node inside
    obtain rfl := threads.unique otherThreads
    refine ⟨cells, kept, threads, keptThreads, fun edge => ?_⟩
    rw [members]
    refine and_congr_right fun member => ?_
    obtain ⟨below, active, _⟩ := (listed edge).mp member
    rw [same edge below active]
  count := by
    rw [decays.count]
    refine occupied_congr fun edge inside => ?_
    cases active : graph.edgeActive edge with
    | false => rfl
    | true => rw [same edge inside active]

theorem decayWeights_nothing
    (exactly : ∀ edge, edge < maxEdges → graph.edgeActive edge = true →
      (graph.edges edge).weight ≠ 0 ∧ saturatedRate 0 (graph.edges edge).weight =
        (graph.edges edge).weight) :
    graph.decayWeights maxEdges 0 = some (graph, 0) := by
  obtain ⟨final, swept, rfl⟩ := @sweep_returns _ maxEdges (fun _ here => here = (graph, 0)) (graph, 0)
    (decayEdge maxEdges 0) rfl (by
      rintro edge _ inside rfl
      refine ⟨_, ?_, rfl⟩
      rw [decayEdge_eq]
      dsimp only
      split
      · rfl
      · rename_i inactive
        obtain ⟨positive, same⟩ := exactly edge inside (by simpa [edgeActive] using inactive)
        rw [same, if_neg positive]
        simp [adjustWeights, setEdge])
  exact swept

/-- While edge slots fit, a decay is exact exactly when no product saturates and, at rate zero, no
active edge has weight zero. -/
theorem decay_exact_iff {history : List (GraphCall × GraphOutcome)}
    (run : Run (Guarded (Step maxNodes maxEdges) (SlotFits maxNodes maxEdges)) .new history graph)
    (decayBp : Nat) :
    ∃ result, graph.decayWeights maxEdges decayBp = some result ∧
      (Decays (exactRate decayBp) maxNodes maxEdges graph result ∧
          (decayBp = 0 → result = (graph, 0)) ↔
        ∀ edge, edge < maxEdges → graph.edgeActive edge = true →
          exactRate decayBp (graph.edges edge).weight ≤ u64Max / 10000 ∧
            (decayBp = 0 → (graph.edges edge).weight ≠ 0)) := by
  have sound := sound_run run
  obtain ⟨result, decayed, decaying⟩ := sound.decays decayBp
  have decays := decaying.decays sound
  refine ⟨result, decayed, ?_, ?_⟩
  · rintro ⟨exact, unchanged⟩ edge inside active
    constructor
    · by_cases gone : saturatedRate decayBp (graph.edges edge).weight = 0
      · unfold saturatedRate at gone
        unfold exactRate
        have wide : 10000 ≤ u64Max := by decide
        omega
      · have stays := (decays.active edge inside).mpr ⟨active, gone⟩
        rw [← saturatedRate_eq_iff, ← (decays.weight edge inside stays).2.2]
        exact (exact.weight edge inside stays).2.2
    · rintro rfl zero
      have kept : result.1.edgeActive edge = true := by
        rw [unchanged rfl]
        exact active
      exact ((decays.active edge inside).mp kept).2 (by rw [zero]; rfl)
  · intro fits
    refine ⟨decays.congr sound fun edge inside active =>
      saturatedRate_eq_iff.mpr (fits edge inside active).1, ?_⟩
    rintro rfl
    refine Option.some.inj (decayed.symm.trans (decayWeights_nothing fun edge inside active => ?_))
    obtain ⟨bound, positive⟩ := fits edge inside active
    exact ⟨positive rfl, (saturatedRate_eq_iff.mpr bound).trans
      (Nat.mul_div_cancel _ (by decide))⟩

def loopGraph (weight : Nat) : CoherenceGraph :=
  { CoherenceGraph.new with
    nodes := update CoherenceGraph.new.nodes 0 ⟨some ⟨1⟩, invalid⟩
    nodeCount := 1
    idToNode := update CoherenceGraph.new.idToNode (hashOf ⟨1⟩) (some 0) }.linkEdge 0 0 0
      weight

theorem loopGraph_run (weight : Nat) : Run (Guarded (Step 2 2) (SlotFits 2 2)) .new
    [(.addNode ⟨1⟩, .ok (.node 0)), (.addEdge ⟨1⟩ ⟨1⟩ weight, .ok (.edge 0))] (loopGraph weight) := by
  have added : Run (Guarded (Step 2 2) (SlotFits 2 2)) .new [(.addNode ⟨1⟩, .ok (.node 0))] _ :=
    .single ⟨rfl, trivial⟩
  exact added.snoc ⟨rfl, fun _ _ _ free => Nat.lt_of_lt_of_le (freeSlot_eq_some free).1 (by decide)⟩

theorem decay_exact_iff_loop : ∃ result, (loopGraph 100).decayWeights 2 1000 = some result ∧
    Decays (exactRate 1000) 2 2 (loopGraph 100) result := by
  obtain ⟨result, decayed, exact⟩ := decay_exact_iff (loopGraph_run 100) 1000
  exact ⟨result, decayed, (exact.mpr (by decide +kernel)).1⟩

/-- At rate zero the weight `u64::MAX` becomes `u64::MAX / 10000`. -/
theorem decay_saturates : ∃ history graph result, Run (Step 2 2) .new history graph ∧
    graph.decayWeights 2 0 = some result ∧ ¬ Decays (exactRate 0) 2 2 graph result := by
  have run := loopGraph_run u64Max
  obtain ⟨result, decayed, decaying⟩ := (sound_run run).decays 0
  refine ⟨_, _, result, run.mono fun _ _ _ guarded => guarded.1, decayed, fun exact => ?_⟩
  have stays := (exact.active 0 (by decide)).mpr ⟨rfl, by decide +kernel⟩
  have weight := (exact.weight 0 (by decide) stays).2.2
  rw [decaying.weight 0 stays] at weight
  exact absurd weight (by decide +kernel)

end CoherenceGraph

end Rvm.Coherence
