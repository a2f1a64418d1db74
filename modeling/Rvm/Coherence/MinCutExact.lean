import Rvm.Coherence.EdgeWeights
import Rvm.Coherence.Neighbourhood
import Rvm.Coherence.StoerWagner
import Rvm.Foundation.Bipartition

/-!
Owns the minimum cut of a coherence graph that was reached by its mutators: the
bridge splits the collected partitions into a minimum cut of the weights between
them, within the budget and as long as no sum saturates.
-/

namespace Rvm.Coherence

open CoherenceGraph Foundation Finset

namespace CoherenceGraph

variable {maxNodes maxEdges : Nat} {graph : CoherenceGraph} {known : Nat → Prop}
  {subNodes : List (Nat × PartitionId)} {a b : PartitionId} {i j : Nat}

instance (edge : Nat) (a b : PartitionId) : Decidable (graph.Joins edge a b) :=
  inferInstanceAs (Decidable (_ ∧ _))

def weightBetween (maxEdges : Nat) (graph : CoherenceGraph) (a b : PartitionId) : Nat :=
  ∑ edge ∈ range maxEdges,
    if graph.edgeActive edge = true ∧ (graph.Joins edge a b ∨ graph.Joins edge b a) then
      (graph.edges edge).weight
    else 0

theorem Sound.joins_iff (sound : Sound maxNodes maxEdges graph) {edge : Nat}
    (inside : edge < maxEdges) (active : graph.edgeActive edge = true)
    (iInside : i < maxNodes) (jInside : j < maxNodes)
    (iHeld : (graph.nodes i).partition = some a) (jHeld : (graph.nodes j).partition = some b) :
    graph.Joins edge a b ↔ (graph.edges edge).fromNode = i ∧ (graph.edges edge).toNode = j := by
  constructor
  · rintro ⟨source, target⟩
    exact ⟨sound.ids _ _ a (sound.source edge inside active).1 iInside source iHeld,
      sound.ids _ _ b (sound.target edge inside active).1 jInside target jHeld⟩
  · rintro ⟨rfl, rfl⟩
    exact ⟨iHeld, jHeld⟩

theorem weightBetween_eq (sound : Sound maxNodes maxEdges graph) (apart : i ≠ j)
    (iInside : i < maxNodes) (jInside : j < maxNodes)
    (iHeld : (graph.nodes i).partition = some a) (jHeld : (graph.nodes j).partition = some b) :
    graph.weightBetween maxEdges a b =
      graph.edgeWeights maxEdges i j + graph.edgeWeights maxEdges j i := by
  rw [edgeWeights, edgeWeights, ← sum_add_distrib]
  refine sum_congr rfl fun edge member => ?_
  have inside := mem_range.mp member
  rw [Edge.share, Edge.share]
  by_cases active : graph.edgeActive edge = true
  · have isActive : (graph.edges edge).active = true := active
    simp only [active, isActive, true_and,
      sound.joins_iff inside active iInside jInside iHeld jHeld,
      sound.joins_iff inside active jInside iInside jHeld iHeld]
    by_cases forward : (graph.edges edge).fromNode = i ∧ (graph.edges edge).toNode = j
    · rw [if_pos (.inl forward), if_pos forward,
        if_neg fun backward => apart (forward.1.symm.trans backward.1)]
      rfl
    · rw [if_neg forward, Nat.zero_add]
      exact if_congr (or_iff_right forward) rfl rfl
  · have inactive : ¬ (graph.edges edge).active = true := active
    rw [if_neg fun held => active held.1, if_neg fun held => inactive held.1,
      if_neg fun held => inactive held.1]

theorem Sound.findNode_held (sound : Sound maxNodes maxEdges graph) (inside : i < maxNodes)
    (held : (graph.nodes i).partition = some a) : graph.findNode maxNodes a = some i := by
  cases found : graph.findNode maxNodes a with
  | none => exact absurd held (sound.findNode_none found inside)
  | some other =>
    obtain ⟨otherInside, otherHeld⟩ := sound.findNode_some found
    rw [sound.ids other i a otherInside inside otherHeld held]

theorem edgeWeightBetween_comm (a b : PartitionId) :
    graph.edgeWeightBetween maxNodes a b = graph.edgeWeightBetween maxNodes b a := by
  unfold edgeWeightBetween
  cases graph.findNode maxNodes a with
  | none => cases graph.findNode maxNodes b <;> rfl
  | some i =>
    cases graph.findNode maxNodes b with
    | none => rfl
    | some j => exact congrArg (min · u64Max) (Nat.add_comm _ _)

theorem localWeight_matrix (subNodes : List (Nat × PartitionId)) :
    LocalMatrix subNodes.length (graph.localWeight maxNodes subNodes) := by
  constructor
  · intro i j
    unfold localWeight
    by_cases same : i = j
    · rw [if_pos same, if_pos same.symm]
    · rw [if_neg same, if_neg (Ne.symm same)]
      cases subNodes[i]? with
      | none => cases subNodes[j]? <;> rfl
      | some first =>
        cases subNodes[j]? with
        | none => rfl
        | some second =>
          dsimp only
          cases graph.partitionAt maxNodes first.1 with
          | none => cases graph.partitionAt maxNodes second.1 <;> rfl
          | some pi =>
            cases graph.partitionAt maxNodes second.1 with
            | none => rfl
            | some pj => exact edgeWeightBetween_comm pi pj
  · intro i j outside
    unfold localWeight
    split
    · rfl
    · by_cases iInside : i < subNodes.length
      · have jOutside : subNodes.length ≤ j := Nat.not_lt.mp fun jInside => outside ⟨iInside, jInside⟩
        rw [List.getElem?_eq_none jOutside]
        cases subNodes[i]? <;> rfl
      · rw [List.getElem?_eq_none (Nat.not_lt.mp iInside)]

/-- The sums of the matrix entries between collected nodes do not saturate. -/
def PairsFit (graph : CoherenceGraph) (subNodes : List (Nat × PartitionId)) : Prop :=
  ∀ first ∈ subNodes, ∀ second ∈ subNodes, first ≠ second →
    graph.adjMatrix first.1 second.1 + graph.adjMatrix second.1 first.1 ≤ u64Max

/-- The entries of the matrix are right up to saturation. -/
def EntriesCapped (maxEdges : Nat) (graph : CoherenceGraph) : Prop :=
  ∀ i j, min (graph.adjMatrix i j) u64Max = min (graph.edgeWeights maxEdges i j) u64Max

theorem Collected.localWeight_eq (collected : Collected maxNodes graph known subNodes)
    (sound : Sound maxNodes maxEdges graph) (entries : EntriesCapped maxEdges graph)
    {first second : Nat × PartitionId} (apart : i ≠ j)
    (atI : subNodes[i]? = some first) (atJ : subNodes[j]? = some second) :
    graph.localWeight maxNodes subNodes i j =
      min (graph.weightBetween maxEdges first.2 second.2) u64Max := by
  have firstListed := List.mem_of_getElem? atI
  have secondListed := List.mem_of_getElem? atJ
  obtain ⟨firstInside, firstHeld⟩ := collected.placed first firstListed
  obtain ⟨secondInside, secondHeld⟩ := collected.placed second secondListed
  have nodesApart : first.1 ≠ second.1 := by
    intro same
    obtain ⟨iInside, iEq⟩ := List.getElem?_eq_some_iff.mp atI
    obtain ⟨jInside, jEq⟩ := List.getElem?_eq_some_iff.mp atJ
    have iMapped : i < (subNodes.map Prod.fst).length := by rwa [List.length_map]
    have jMapped : j < (subNodes.map Prod.fst).length := by rwa [List.length_map]
    have entries : (subNodes.map Prod.fst)[i] = (subNodes.map Prod.fst)[j] := by
      rw [List.getElem_map, List.getElem_map, iEq, jEq, same]
    exact apart (collected.distinct.getElem_inj_iff.mp entries)
  have forward := entries first.1 second.1
  have backward := entries second.1 first.1
  rw [localWeight, if_neg apart, atI, atJ]
  dsimp only
  rw [partitionAt_eq_some.mpr ⟨firstInside, firstHeld⟩,
    partitionAt_eq_some.mpr ⟨secondInside, secondHeld⟩]
  dsimp only
  rw [edgeWeightBetween, sound.findNode_held firstInside firstHeld,
    sound.findNode_held secondInside secondHeld]
  dsimp only
  rw [weightBetween_eq sound nodesApart firstInside secondInside firstHeld secondHeld, saturatingAdd64]
  omega

theorem Collected.partitions_nodup (collected : Collected maxNodes graph known subNodes)
    (sound : Sound maxNodes maxEdges graph) : (subNodes.map Prod.snd).Nodup := by
  refine (List.nodup_map_iff_inj_on (List.Nodup.of_map _ collected.distinct)).mpr ?_
  intro first firstListed second secondListed same
  obtain ⟨firstInside, firstHeld⟩ := collected.placed first firstListed
  obtain ⟨secondInside, secondHeld⟩ := collected.placed second secondListed
  exact Prod.ext (sound.ids _ _ second.2 firstInside secondInside (same ▸ firstHeld) secondHeld) same

end CoherenceGraph

def partitionName (subNodes : List (Nat × PartitionId)) (i : Nat) : PartitionId :=
  (subNodes.map Prod.snd).getD i .hypervisor

theorem partitionName_eq {subNodes : List (Nat × PartitionId)} {i : Nat}
    {node : Nat × PartitionId} (at_i : subNodes[i]? = some node) :
    partitionName subNodes i = node.2 := by
  rw [partitionName, List.getD_eq_getElem?_getD, List.getElem?_map, at_i]
  rfl

theorem partitionName_listed (subNodes : List (Nat × PartitionId)) :
    (List.range subNodes.length).map (partitionName subNodes) = subNodes.map Prod.snd := by
  refine List.ext_getElem (by simp) fun i inside _ => ?_
  have below : i < subNodes.length := by simpa using inside
  rw [List.getElem_map, List.getElem_map, List.getElem_range,
    partitionName_eq (List.getElem?_eq_getElem below)]

theorem appendSide_pick {name : Nat → PartitionId} {choose : Nat → Bool} {k : Nat}
    (room : k < mincutMaxNodes) (isChosen : choose k = true) :
    appendSide (pick name k choose) (name k) = pick name (k + 1) choose := by
  have short : (pick name k choose).length ≤ k := by
    rw [pick, List.length_map]
    exact (List.length_filter_le _ _).trans (List.length_range (n := k)).le
  rw [appendSide, if_pos (Nat.lt_of_le_of_lt short room), pick_take isChosen]

theorem buildResult_eq {subNodes : List (Nat × PartitionId)} (groups : Nat → Nat → Bool)
    (cutNode : Nat) {n : Nat} (within : n ≤ subNodes.length) (small : n ≤ mincutMaxNodes) :
    buildResult subNodes groups cutNode n =
      ⟨pick (partitionName subNodes) n (groups cutNode),
        pick (partitionName subNodes) n (fun i => !groups cutNode i), 0, true⟩ := by
  induction n with
  | zero => rfl
  | succ n ih =>
    have earlier := ih (Nat.le_of_succ_le within) (Nat.le_of_succ_le small)
    have here : subNodes[n]? = some subNodes[n] := List.getElem?_eq_getElem within
    have name := partitionName_eq here
    rw [buildResult, List.range_succ, List.foldl_append, ← buildResult, earlier]
    rw [List.foldl_cons, List.foldl_nil, here]
    dsimp only
    rw [← name]
    cases side : groups cutNode n with
    | true =>
      have other : (!groups cutNode n) = false := by rw [side]; rfl
      rw [if_pos rfl, appendSide_pick small side,
        @pick_skip _ (partitionName subNodes) (fun i => !groups cutNode i) n other]
    | false =>
      have other : (!groups cutNode n) = true := by rw [side]; rfl
      rw [if_neg Bool.false_ne_true, pick_skip side,
        ← @appendSide_pick (partitionName subNodes) (fun i => !groups cutNode i) n small other]

/-- No sum saturates: the two directions of a pair, the keys of the phases and the
merged weights. -/
structure Unsaturated (maxNodes : Nat) (graph : CoherenceGraph)
    (subNodes : List (Nat × PartitionId)) : Prop where
  pairs : graph.PairsFit subNodes
  phases : PhasesFit subNodes.length subNodes.length
    (initialState (graph.localWeight maxNodes subNodes) subNodes.length)

namespace MinCutBridge

variable {maxNodes maxEdges : Nat} {graph : CoherenceGraph} {known : Nat → Prop}
  {subNodes : List (Nat × PartitionId)} {bridge : MinCutBridge}

theorem across_saturated {n : Nat} {adj other : Nat → Nat → Nat} {part : Finset Nat}
    (same : ∀ i j, i < n → j < n → i ≠ j → adj i j = min (other i j) u64Max)
    (inside : part ⊆ range n) :
    min (across adj part (range n \ part)) u64Max =
      min (across other part (range n \ part)) u64Max := by
  refine congrArg Capped.value ((across_capped adj _ _).symm.trans
    (Eq.trans ?_ (across_capped other _ _)))
  refine sum_congr rfl fun i member => sum_congr rfl fun j outside => ?_
  obtain ⟨known, apart⟩ := mem_sdiff.mp outside
  have entry := same i j (mem_range.mp (inside member)) (mem_range.mp known)
    fun here => apart (here ▸ member)
  refine Capped.ext ?_
  rw [capped, saturate_value, entry, Nat.min_assoc, Nat.min_self]
  rfl

/-- Within the budget the collected nodes are split into a minimum cut, or not at all
where no bipartition is below the initial value. -/
theorem cutOf_within (collected : graph.Collected maxNodes known subNodes)
    (sound : graph.Sound maxNodes maxEdges) (entries : graph.EntriesCapped maxEdges)
    (many : 2 ≤ subNodes.length) (budget : subNodes.length ≤ bridge.maxIterations + 1) :
    (bridge.cutOf maxNodes graph subNodes).lastKnownCut.withinBudget = true ∧
      ((bridge.cutOf maxNodes graph subNodes).lastKnownCut.cutWeight < u64Max ∧
        MinimumCut (graph.weightBetween maxEdges) (subNodes.map Prod.snd)
          (bridge.cutOf maxNodes graph subNodes).lastKnownCut.left
          (bridge.cutOf maxNodes graph subNodes).lastKnownCut.right
          (bridge.cutOf maxNodes graph subNodes).lastKnownCut.cutWeight ∨
      (bridge.cutOf maxNodes graph subNodes).lastKnownCut.right = [] ∧
        ∀ left right, Bipartition (subNodes.map Prod.snd) left right →
          u64Max ≤ crossWeight (graph.weightBetween maxEdges) left right) := by
  have distinct := collected.partitions_nodup sound
  have listed := partitionName_listed subNodes
  obtain ⟨between, named⟩ : ∃ between : Nat → Nat → Nat, ∀ i j, between i j =
      graph.weightBetween maxEdges (partitionName subNodes i) (partitionName subNodes j) :=
    ⟨_, fun _ _ => rfl⟩
  have same : ∀ i j, i < subNodes.length → j < subNodes.length → i ≠ j →
      graph.localWeight maxNodes subNodes i j = min (between i j) u64Max := by
    intro i j iInside jInside apart
    have atI := List.getElem?_eq_getElem iInside
    have atJ := List.getElem?_eq_getElem jInside
    rw [named, partitionName_eq atI, partitionName_eq atJ]
    exact collected.localWeight_eq sound entries apart atI atJ
  obtain ⟨final, returned, least, ends⟩ := runPhases_minimum
    (@localWeight_matrix maxNodes graph subNodes) (by omega) budget
  have top : final.bestCutWeight ≤ u64Max := ends.elim (fun best => best.1.le) fun best => best.1.le
  have leastBetween : ∀ part ⊆ Finset.range subNodes.length, part.Nonempty →
      part ≠ Finset.range subNodes.length →
      final.bestCutWeight ≤ across between part (Finset.range subNodes.length \ part) := by
    intro part inside nonempty proper
    have saturated := across_saturated same inside
    have bound := least part inside nonempty proper
    omega
  have cut : (bridge.cutOf maxNodes graph subNodes).lastKnownCut =
      final.result subNodes subNodes.length true := by
    unfold cutOf stoerWagnerMincut
    rw [if_neg (by omega), if_neg (by omega), returned]
    rfl
  rw [cut, CutState.result, buildResult_eq final.groups final.bestCutNode le_rfl collected.small]
  refine ⟨rfl, ends.imp (fun best => ⟨best.1, ?_⟩) fun best => ⟨?_, fun left right bipartition => ?_⟩⟩
  · have chosenPart : chosen subNodes.length (final.groups final.bestCutNode) ⊆
        Finset.range subNodes.length := Finset.filter_subset _ _
    have saturated := across_saturated same chosenPart
    have weight := congrArg Capped.value ((across_capped _ _ _).symm.trans best.2.weight)
    have weighs : across between (chosen subNodes.length (final.groups final.bestCutNode))
        (Finset.range subNodes.length \ chosen subNodes.length (final.groups final.bestCutNode)) =
        final.bestCutWeight := by
      have sum := saturated.symm.trans weight
      rw [saturate_value, Nat.min_eq_left top] at sum
      have small := best.1
      omega
    exact minimumCut_pick distinct listed (fun i j _ _ _ => named i j) best.2.nonempty best.2.proper
      weighs leastBetween
  · have whole : chosen subNodes.length (final.groups final.bestCutNode) =
        Finset.range subNodes.length := best.2
    by_contra some
    rw [← ne_eq, pick_ne_nil, chosen_not, whole, Finset.sdiff_self] at some
    exact Finset.not_nonempty_empty some
  · obtain ⟨part, inside, nonempty, proper, weighs⟩ :=
      @Bipartition.exists_part _ _ _ (graph.weightBetween maxEdges) between _ _ _ _ _ _ bipartition
        distinct listed fun i j _ _ _ => named i j
    rw [weighs, ← best.1]
    exact leastBetween part inside nonempty proper

/-- While slots fit and no matrix entry saturates, what the bridge collects is cut at a minimum
cut, if the budget suffices and some cut is below the initial value. -/
theorem minimumCut {history : List (GraphCall × GraphOutcome)}
    (run : Run (Guarded (CoherenceGraph.Step maxNodes maxEdges)
      (CoherenceGraph.SumsFit maxNodes maxEdges)) .new history graph)
    (bridge : MinCutBridge) (id : PartitionId) :
    ∃ subNodes next, graph.collect maxNodes maxEdges id = some subNodes ∧
      bridge.findMinCut maxNodes maxEdges graph id = some next ∧
      (subNodes.map Prod.snd).Nodup ∧
      (∀ pid ∈ subNodes.map Prod.snd, graph.Nearby maxEdges id pid) ∧
      (maxNodes ≤ mincutMaxNodes → ∀ i pid, graph.partitionAt maxNodes i = some pid →
        graph.Nearby maxEdges id pid → pid ∈ subNodes.map Prod.snd) ∧
      (subNodes.length < 2 →
        next.lastKnownCut = ⟨subNodes.map Prod.snd, [], 0, true⟩) ∧
      (2 ≤ subNodes.length → subNodes.length ≤ bridge.maxIterations + 1 →
        (∃ left right, Bipartition (subNodes.map Prod.snd) left right ∧
          crossWeight (graph.weightBetween maxEdges) left right < u64Max) →
        next.lastKnownCut.withinBudget = true ∧
          MinimumCut (graph.weightBetween maxEdges) (subNodes.map Prod.snd)
            next.lastKnownCut.left next.lastKnownCut.right next.lastKnownCut.cutWeight) := by
  obtain ⟨sound, weighted⟩ := weighted_run run
  obtain ⟨subNodes, returned, collected⟩ := sound.collect id
  refine ⟨subNodes, bridge.advanceEpoch.cutOf maxNodes graph subNodes, returned, ?_,
    collected.partitions_nodup sound, ?_, ?_, ?_, ?_⟩
  · rw [findMinCut, returned]
    rfl
  · intro pid member
    obtain ⟨node, listed, rfl⟩ := List.mem_map.mp member
    obtain ⟨other, held, near⟩ := collected.only node listed
    obtain ⟨inside, placed⟩ := collected.placed node listed
    have same : some node.2 = some other :=
      (partitionAt_eq_some.mpr ⟨inside, placed⟩).symm.trans held
    rw [Option.some.inj same]
    exact near
  · intro within i pid held near
    obtain ⟨node, listed, rfl⟩ := List.mem_map.mp (collected.all within i ⟨pid, held, near⟩)
    have placed := partitionAt_eq_some.mpr (collected.placed node listed)
    exact List.mem_map.mpr ⟨node, listed, Option.some.inj (placed.symm.trans held)⟩
  · intro few
    rw [cutOf, if_pos few]
    rfl
  · intro many budget below
    have entries : graph.EntriesCapped maxEdges := fun i j => congrArg (min · u64Max) (weighted i j)
    obtain ⟨within, split⟩ := @cutOf_within _ _ _ _ _ bridge.advanceEpoch collected sound entries many
      budget
    refine ⟨within, split.elim And.right fun undivided => ?_⟩
    obtain ⟨left, right, bipartition, small⟩ := below
    exact absurd (undivided.2 left right bipartition) (Nat.not_le.mpr small)

def triangleHistory : List (GraphCall × GraphOutcome) :=
  [(.addNode ⟨1⟩, .ok (.node 0)), (.addNode ⟨2⟩, .ok (.node 1)), (.addNode ⟨3⟩, .ok (.node 2)),
    (.addEdge ⟨1⟩ ⟨2⟩ 5, .ok (.edge 0)), (.addEdge ⟨2⟩ ⟨3⟩ 7, .ok (.edge 1)),
    (.addEdge ⟨3⟩ ⟨1⟩ 2, .ok (.edge 2))]

/-- The cheapest cut of the triangle takes the first partition off. -/
theorem minimumCut_triangle :
    ∃ graph next, Run (Guarded (CoherenceGraph.Step 4 4) (CoherenceGraph.SumsFit 4 4)) .new
        triangleHistory graph ∧
      (MinCutBridge.new 2).findMinCut 4 4 graph ⟨1⟩ = some next ∧ next.lastKnownCut.cutWeight = 7 ∧
      MinimumCut (graph.weightBetween 4) [⟨1⟩, ⟨2⟩, ⟨3⟩] next.lastKnownCut.left
        next.lastKnownCut.right next.lastKnownCut.cutWeight := by
  have run : Run (Guarded (Step 4 4) (SumsFit 4 4)) .new triangleHistory _ :=
    .cons ⟨rfl, trivial, trivial⟩ <| .cons ⟨rfl, trivial, trivial⟩ <|
      .cons ⟨rfl, trivial, trivial⟩ <|
      .cons ⟨rfl, sumsFit_addEdge (by decide) rfl rfl (by decide)⟩ <|
      .cons ⟨rfl, sumsFit_addEdge (by decide) rfl rfl (by decide)⟩ <|
      .single ⟨rfl, sumsFit_addEdge (by decide) rfl rfl (by decide)⟩
  obtain ⟨subNodes, next, collected, found, _, _, _, _, exact⟩ := minimumCut run (.new 2) ⟨1⟩
  obtain rfl : [(0, ⟨1⟩), (1, ⟨2⟩), (2, ⟨3⟩)] = subNodes := Option.some.inj collected
  have weighs : next.lastKnownCut.cutWeight = 7 := by
    have same := Option.some.inj found
    rw [← same]
    decide
  refine ⟨_, next, run, found, weighs, ?_⟩
  refine (exact (by decide) (by decide) ⟨[⟨1⟩], [⟨2⟩, ⟨3⟩], ⟨?_, ?_, ?_⟩, ?_⟩).2
  · exact List.Perm.refl _
  · decide
  · decide
  · decide

def heaviestHistory : List (GraphCall × GraphOutcome) :=
  [(.addNode ⟨1⟩, .ok (.node 0)), (.addNode ⟨2⟩, .ok (.node 1)),
    (.addEdge ⟨1⟩ ⟨2⟩ u64Max, .ok (.edge 0))]

/-- An isolated partition is not split; nor are two whose only bipartition weighs as much as the
initial value. -/
theorem minimumCut_limits :
    (∃ graph next, Run (Guarded (CoherenceGraph.Step 4 4) (CoherenceGraph.SumsFit 4 4)) .new
        (heaviestHistory.take 1) graph ∧
      graph.collect 4 4 ⟨1⟩ = some [(0, ⟨1⟩)] ∧ Unsaturated 4 graph [(0, ⟨1⟩)] ∧
      (MinCutBridge.new 2).findMinCut 4 4 graph ⟨1⟩ = some next ∧
      ¬ Bipartition [⟨1⟩] next.lastKnownCut.left next.lastKnownCut.right) ∧
    ∃ graph next, Run (Guarded (CoherenceGraph.Step 4 4) (CoherenceGraph.SumsFit 4 4)) .new
        heaviestHistory graph ∧
      graph.collect 4 4 ⟨1⟩ = some [(0, ⟨1⟩), (1, ⟨2⟩)] ∧
      Unsaturated 4 graph [(0, ⟨1⟩), (1, ⟨2⟩)] ∧
      (MinCutBridge.new 2).findMinCut 4 4 graph ⟨1⟩ = some next ∧
      ¬ Bipartition [⟨1⟩, ⟨2⟩] next.lastKnownCut.left next.lastKnownCut.right := by
  have first : Run (Guarded (Step 4 4) (SumsFit 4 4)) .new
      (heaviestHistory.take 1) _ := .single ⟨rfl, trivial, trivial⟩
  have second : Run (Guarded (Step 4 4) (SumsFit 4 4)) .new
      (heaviestHistory.take 2) _ := first.snoc ⟨rfl, trivial, trivial⟩
  have run : Run (Guarded (Step 4 4) (SumsFit 4 4)) .new
      heaviestHistory _ :=
    second.snoc ⟨rfl, sumsFit_addEdge (by decide) rfl rfl (by decide)⟩
  refine ⟨⟨_, _, first, rfl, ⟨?_, trivial⟩, rfl, fun split => split.rightNonempty (by decide)⟩,
    ⟨_, _, run, rfl, ⟨?_, ⟨⟨?_, ?_⟩, trivial⟩⟩, rfl,
      fun split => split.rightNonempty (by decide)⟩⟩
  · unfold PairsFit
    decide
  · unfold PairsFit
    decide
  · unfold AdvanceFits
    decide
  · unfold MergeFits
    decide

end MinCutBridge

end Rvm.Coherence
