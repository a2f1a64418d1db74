import Rvm.Coherence.MinCutExact

/-!
Owns the answers of the minimum cut bridge over runs of its calls: when an answer is
a genuine cut of the collected partitions. An answer beyond the budget never is: it
lists more partitions than any answer within the budget.
-/

namespace Rvm.Coherence

open Foundation CoherenceGraph List

abbrev BridgeCall := (CoherenceGraph × PartitionId) × MinCutResult

/-- What the documentation says of an answer about some nodes, after the last answer
that was computed within the budget. -/
structure GenuineCut (weight : PartitionId → PartitionId → Nat) (nodes : List PartitionId)
    (lastKnown answer : MinCutResult) : Prop where
  covers : (answer.left ++ answer.right).Perm nodes
  split : 2 ≤ nodes.length → answer.left ≠ [] ∧ answer.right ≠ []
  weighs : answer.cutWeight = crossWeight weight answer.left answer.right
  reused : answer.withinBudget = false → answer = { lastKnown with withinBudget := false }

def lastWithin (history : List BridgeCall) : MinCutResult :=
  history.foldl (fun last call => if call.2.withinBudget = true then call.2 else last) .empty

namespace CoherenceGraph

/-- An edge takes a slot below the sentinel, and weight is taken only from entries of the
matrix within 64 bits. -/
def MatrixLawful (maxNodes maxEdges : Nat) (graph : CoherenceGraph)
    (label : GraphCall × GraphOutcome) : Prop :=
  SlotFits maxNodes maxEdges graph label ∧
    ∀ i j, LowersWithin maxNodes maxEdges (.entry i j) graph label

def Reached (maxNodes maxEdges : Nat) (graph : CoherenceGraph) : Prop :=
  ∃ history, Run (Guarded (Step maxNodes maxEdges) (MatrixLawful maxNodes maxEdges)) .new history graph

theorem Reached.entries {maxNodes maxEdges : Nat} {graph : CoherenceGraph}
    (reached : graph.Reached maxNodes maxEdges) :
    graph.Sound maxNodes maxEdges ∧ graph.EntriesCapped maxEdges := by
  obtain ⟨history, run⟩ := reached
  have holds := @Run.stateInvariant _ _ _ _ _ _
    (fun here => Sound maxNodes maxEdges here ∧ ∀ i j, Cached maxEdges (.entry i j) here)
    ⟨sound_new maxNodes maxEdges, fun _ _ => cached_new.1⟩
    (fun here label next holds guarded => ⟨(holds.1.step guarded.1).1 guarded.2.1, fun i j =>
      ((holds.2 i j).step guarded.2.1.reusable (guarded.2.2 i j) guarded.1).1⟩) run
  refine ⟨holds.1, fun i j => ?_⟩
  have entry : graph.adjMatrix i j = min (graph.edgeWeights maxEdges i j) u64Max :=
    (holds.2 i j).capped
  rw [entry, Nat.min_assoc, Nat.min_self]

end CoherenceGraph

namespace MinCutBridge

variable {maxNodes maxEdges maxIterations : Nat} {graph : CoherenceGraph} {known : Nat → Prop}
  {subNodes : List (Nat × PartitionId)} {bridge : MinCutBridge}

def Step (maxNodes maxEdges : Nat) (bridge : MinCutBridge) (call : BridgeCall)
    (next : MinCutBridge) : Prop :=
  call.1.1.Reached maxNodes maxEdges ∧
    bridge.findMinCut maxNodes maxEdges call.1.1 call.1.2 = some next ∧ call.2 = next.lastKnownCut

theorem runPhases_spent {n : Nat} (activeCount : Nat) (state : CutState)
    (spent : maxIterations < state.iterationCount + activeCount) :
    state.iterationCount ≤ maxIterations →
      ∃ final, runPhases n maxIterations (activeCount + 1) state = .error final := by
  induction activeCount generalizing state with
  | zero => exact fun within => absurd spent (Nat.not_lt.mpr within)
  | succ activeCount ih =>
    intro within
    have counted : (state.step n (activeCount + 2)).iterationCount = state.iterationCount + 1 := rfl
    by_cases last : state.iterationCount ≥ maxIterations
    · exact ⟨state, by rw [runPhases, if_pos last]⟩
    · obtain ⟨final, failed⟩ := ih _ (by rw [counted]; omega) (by rw [counted]; omega)
      exact ⟨final, by rw [runPhases, if_neg last, failed]⟩

/-- An answer lists the collected partitions; it is beyond the budget exactly where
these need more phases. -/
theorem cutOf_covers (collected : graph.Collected maxNodes known subNodes) :
    ((bridge.cutOf maxNodes graph subNodes).lastKnownCut.left ++
        (bridge.cutOf maxNodes graph subNodes).lastKnownCut.right).Perm (subNodes.map Prod.snd) ∧
      ((bridge.cutOf maxNodes graph subNodes).lastKnownCut.withinBudget = false ↔
        2 ≤ subNodes.length ∧ bridge.maxIterations + 1 < subNodes.length) ∧
      (bridge.cutOf maxNodes graph subNodes).maxIterations = bridge.maxIterations := by
  have sides (state : CutState) (within : Bool) :
      ((state.result subNodes subNodes.length within).left ++
        (state.result subNodes subNodes.length within).right).Perm (subNodes.map Prod.snd) := by
    rw [CutState.result, buildResult_eq state.groups state.bestCutNode le_rfl collected.small]
    exact partitionName_listed subNodes ▸ pick_perm
  unfold cutOf
  by_cases few : subNodes.length < 2
  · rw [if_pos few]
    exact ⟨List.Perm.of_eq (append_nil _),
      iff_of_false Bool.noConfusion fun beyond => absurd few (Nat.not_lt.mpr beyond.1), rfl⟩
  · rw [if_neg few, stoerWagnerMincut, if_neg few]
    by_cases budget : subNodes.length ≤ bridge.maxIterations + 1
    · obtain ⟨final, returned, _⟩ :=
        runPhases_minimum (@CoherenceGraph.localWeight_matrix maxNodes graph subNodes) (by omega) budget
      rw [returned]
      exact ⟨sides final true, iff_of_false Bool.noConfusion fun beyond => by omega, rfl⟩
    · obtain ⟨count, length⟩ : ∃ count, subNodes.length = count + 1 := ⟨subNodes.length - 1, by omega⟩
      obtain ⟨final, failed⟩ := @runPhases_spent bridge.maxIterations subNodes.length count
        (initialState (graph.localWeight maxNodes subNodes) subNodes.length)
        (by rw [initialState]; omega) (Nat.zero_le _)
      rw [← length] at failed
      rw [failed]
      exact ⟨sides final false, iff_of_true rfl (by omega), rfl⟩

/-- Run lemma: no answer within the budget lists more partitions than the budget
allows for. -/
theorem lastWithin_small {history : List BridgeCall}
    (run : Run (Step maxNodes maxEdges) (.new maxIterations) history bridge) :
    bridge.maxIterations = maxIterations ∧
      ((lastWithin history).left ++ (lastWithin history).right).length ≤ maxIterations + 1 := by
  refine @Run.invariant _ _ _ _ _ _ (fun history here => here.maxIterations = maxIterations ∧
    ((lastWithin history).left ++ (lastWithin history).right).length ≤ maxIterations + 1)
    ⟨rfl, Nat.zero_le _⟩ (fun earlier here call next _ holds step => ?_) run
  obtain ⟨reached, returned, answered⟩ := step
  obtain ⟨subNodes, found, collected⟩ := reached.entries.1.collect call.1.2
  rw [findMinCut, found] at returned
  cases returned
  obtain ⟨covers, budget, kept⟩ := @cutOf_covers _ _ _ _ here.advanceEpoch collected
  refine ⟨kept.trans holds.1, ?_⟩
  rw [lastWithin, foldl_append, ← lastWithin, foldl_cons, foldl_nil, answered]
  split
  · rename_i within
    rw [covers.length_eq, length_map]
    have room : here.advanceEpoch.maxIterations = maxIterations := holds.1
    rw [within, room] at budget
    have fits : ¬ (2 ≤ subNodes.length ∧ maxIterations + 1 < subNodes.length) := fun beyond =>
      Bool.noConfusion (budget.mpr beyond)
    omega
  · exact holds.2

/-- On every reached graph an answer is a genuine cut exactly where at most one partition is
collected, or the budget suffices and some cut is below the initial value. -/
theorem genuineCut_iff {history : List BridgeCall}
    (run : Run (Step maxNodes maxEdges) (.new maxIterations) history bridge)
    (reached : graph.Reached maxNodes maxEdges) (id : PartitionId) :
    ∃ subNodes next, graph.collect maxNodes maxEdges id = some subNodes ∧
      bridge.findMinCut maxNodes maxEdges graph id = some next ∧ (subNodes.map Prod.snd).Nodup ∧
      (GenuineCut (graph.weightBetween maxEdges) (subNodes.map Prod.snd) (lastWithin history)
          next.lastKnownCut ↔
        subNodes.length < 2 ∨ subNodes.length ≤ maxIterations + 1 ∧
          ∃ left right, Bipartition (subNodes.map Prod.snd) left right ∧
            crossWeight (graph.weightBetween maxEdges) left right < u64Max) := by
  obtain ⟨sound, entries⟩ := reached.entries
  obtain ⟨subNodes, returned, collected⟩ := sound.collect id
  obtain ⟨kept, small⟩ := lastWithin_small run
  obtain ⟨covers, budget, _⟩ := @cutOf_covers _ _ _ _ bridge.advanceEpoch collected
  have room : bridge.advanceEpoch.maxIterations = maxIterations := kept
  refine ⟨subNodes, bridge.advanceEpoch.cutOf maxNodes graph subNodes, returned,
    by rw [findMinCut, returned]; rfl, collected.partitions_nodup sound, ?_⟩
  by_cases few : subNodes.length < 2
  · refine iff_of_true ⟨covers, fun many => ?_, ?_, fun beyond => ?_⟩ (.inl few)
    · rw [length_map] at many
      omega
    · rw [cutOf, if_pos few]
      exact (sum_eq_zero fun _ member => (mem_map.mp member).elim fun _ held =>
        held.2.symm).symm
    · have more := budget.mp beyond
      omega
  · by_cases large : maxIterations + 1 < subNodes.length
    · refine iff_of_false (fun genuine => ?_) fun either => ?_
      · -- the last answer within the budget lists fewer partitions
        have same := genuine.reused (budget.mpr ⟨Nat.not_lt.mp few, room.symm ▸ large⟩)
        have count := covers.length_eq
        rw [same, length_map] at count
        dsimp only at count
        omega
      · exact either.elim few fun within => absurd large (Nat.not_lt.mpr within.1)
    · obtain ⟨within, split⟩ := @cutOf_within _ _ _ _ _ bridge.advanceEpoch collected sound entries
        (Nat.not_lt.mp few) (room.symm ▸ Nat.not_lt.mp large)
      rcases split with divided | undivided
      · obtain ⟨below, cut⟩ := divided
        refine iff_of_true ⟨covers, fun _ => ⟨cut.leftNonempty, cut.rightNonempty⟩, cut.weighs,
          fun beyond => ?_⟩ (.inr ⟨Nat.not_lt.mp large, _, _, cut.toBipartition, cut.weighs ▸ below⟩)
        rw [within] at beyond
        cases beyond
      · refine iff_of_false (fun genuine => ?_) fun either => ?_
        · exact (genuine.split (by rw [length_map]; omega)).2 undivided.1
        · obtain ⟨_, left, right, bipartition, light⟩ := either.resolve_left few
          exact absurd (undivided.2 left right bipartition) (Nat.not_le.mpr light)

def pairHistory : List (GraphCall × GraphOutcome) :=
  [(.addNode ⟨1⟩, .ok (.node 0)), (.addNode ⟨2⟩, .ok (.node 1)), (.addEdge ⟨1⟩ ⟨2⟩ 5, .ok (.edge 0))]

theorem genuineCut_iff_pair : ∃ graph next, graph.Reached 2 2 ∧
    (MinCutBridge.new 1).findMinCut 2 2 graph ⟨1⟩ = some next ∧ next.lastKnownCut.cutWeight = 5 ∧
    GenuineCut (graph.weightBetween 2) [⟨1⟩, ⟨2⟩] .empty next.lastKnownCut := by
  have run : Run (Guarded (CoherenceGraph.Step 2 2) (CoherenceGraph.MatrixLawful 2 2)) .new
      pairHistory _ :=
    .cons ⟨rfl, trivial, fun _ _ => lowersWithin_of_grows fun _ => le_rfl⟩ <|
      .cons ⟨rfl, trivial, fun _ _ => lowersWithin_of_grows fun _ => le_rfl⟩ <|
        .single ⟨rfl, fun _ _ _ free => Nat.lt_of_lt_of_le
          (freeSlot_eq_some free).1 (by decide),
          fun _ _ => lowersWithin_of_grows fun _ => le_rfl⟩
  obtain ⟨subNodes, next, collected, found, _, exact⟩ := genuineCut_iff
    (.nil : Run (Step 2 2) (.new 1) [] (.new 1)) ⟨_, run⟩ ⟨1⟩
  obtain rfl : [(0, ⟨1⟩), (1, ⟨2⟩)] = subNodes := Option.some.inj collected
  have weighs : next.lastKnownCut.cutWeight = 5 := by
    have same := Option.some.inj found
    rw [← same]
    decide
  refine ⟨_, next, ⟨_, run⟩, found, weighs, exact.mpr (.inr ⟨by decide, [⟨1⟩], [⟨2⟩], ⟨?_, ?_, ?_⟩, ?_⟩)⟩
  · exact List.Perm.refl _
  · decide
  · decide
  · decide

/-- Without a budget the answer has the initial value for its weight. -/
theorem genuineCut_exhausted : ∃ graph next,
    Run (CoherenceGraph.Step 2 2) .new pairHistory graph ∧
      graph.collect 2 2 ⟨1⟩ = some [(0, ⟨1⟩), (1, ⟨2⟩)] ∧
      (MinCutBridge.new 0).findMinCut 2 2 graph ⟨1⟩ = some next ∧
      next.lastKnownCut = ⟨[⟨1⟩], [⟨2⟩], u64Max, false⟩ ∧
      ¬ GenuineCut (graph.weightBetween 2) [⟨1⟩, ⟨2⟩] .empty next.lastKnownCut := by
  have run : Run (CoherenceGraph.Step 2 2) .new pairHistory _ :=
    .cons rfl <| .cons rfl <| .single rfl
  refine ⟨_, _, run, rfl, rfl, rfl, fun genuine => ?_⟩
  exact absurd genuine.weighs (by decide)

end MinCutBridge

end Rvm.Coherence
