import Rvm.Coherence.EdgeWeights
import Rvm.Coherence.Engine

/-!
Owns the range of the scores of `rvm-coherence/src/pressure.rs` in reached graphs of
any size: what the cached sums bound, also where one of them saturates, and when
the mutual coherence keeps the half that its threshold counts on.
-/

namespace Rvm.Coherence

open Foundation

namespace CoherenceGraph

/-- The pressure of `compute_cut_pressure` before its conversion to `u32`. -/
def cutBasisPoints (maxNodes maxEdges : Nat) (graph : CoherenceGraph) (id : PartitionId) : Nat :=
  let total := graph.totalWeight maxNodes id
  let external := total - graph.internalWeight maxNodes maxEdges id
  if total = 0 then 0 else external * 10000 / total

/-- The share of `evaluate_merge` before its conversion to `u16`. -/
def mutualBasisPoints (maxNodes : Nat) (graph : CoherenceGraph) (a b : PartitionId) : Nat :=
  let combined := saturatingAdd64 (graph.totalWeight maxNodes a) (graph.totalWeight maxNodes b)
  if combined = 0 then 0 else graph.edgeWeightBetween maxNodes a b * 10000 / combined

/-- The most that a pair reaches by the documentation: half of both totals. -/
def mutualBoundBp : Nat := 5000

/-- An edge takes a reusable slot, and weight is taken only from sums within 64 bits. -/
def SumsLawful (maxNodes maxEdges : Nat) (graph : CoherenceGraph)
    (label : GraphCall × GraphOutcome) : Prop :=
  SlotReusable maxNodes maxEdges graph label ∧
    ∀ cell : SumCell, LowersWithin maxNodes maxEdges cell graph label

variable {maxNodes maxEdges : Nat} {graph next : CoherenceGraph} {a b : PartitionId}

theorem cutBasisPoints_le (graph : CoherenceGraph) (id : PartitionId) :
    graph.cutBasisPoints maxNodes maxEdges id ≤ 10000 := by
  unfold cutBasisPoints
  dsimp only
  split
  · exact Nat.zero_le _
  · refine Nat.div_le_of_le_mul ?_
    exact Nat.mul_le_mul_right _ (Nat.sub_le _ _)

theorem cached_le {cell other : SumCell} (left : Cached maxEdges cell graph)
    (right : Cached maxEdges other graph)
    (covers : ∀ fromIdx toIdx, cell.Covers fromIdx toIdx → other.Covers fromIdx toIdx) :
    cell.value graph ≤ other.value graph := by
  have totals : cell.total maxEdges graph ≤ other.total maxEdges graph := by
    refine Finset.sum_le_sum fun edge _ => ?_
    rw [SumCell.part, SumCell.part]
    split
    · rename_i counted
      rw [if_pos ⟨counted.1, covers _ _ counted.2⟩]
    · exact Nat.zero_le _
  rw [left.capped, right.capped]
  omega

theorem between_le (cached : ∀ cell : SumCell, Cached maxEdges cell graph) (a b : PartitionId) :
    graph.edgeWeightBetween maxNodes a b ≤ graph.totalWeight maxNodes a ∧
      graph.edgeWeightBetween maxNodes a b ≤ graph.totalWeight maxNodes b := by
  have row : ∀ i j, graph.adjMatrix i j ≤ graph.cachedOutgoing i := fun i j =>
    cached_le (cached (.entry i j)) (cached (.outgoing i)) fun _ _ joins => joins.1
  have column : ∀ i j, graph.adjMatrix i j ≤ graph.cachedIncoming j := fun i j =>
    cached_le (cached (.entry i j)) (cached (.incoming j)) fun _ _ joins => joins.2
  unfold edgeWeightBetween totalWeight
  cases graph.findNode maxNodes a with
  | none => exact ⟨Nat.zero_le _, Nat.zero_le _⟩
  | some i =>
    cases graph.findNode maxNodes b with
    | none => exact ⟨Nat.zero_le _, Nat.zero_le _⟩
    | some j =>
      have forward := row i j
      have backward := column j i
      have otherRow := row j i
      have otherColumn := column i j
      dsimp only
      unfold saturatingAdd64
      omega

theorem totalWeight_le (graph : CoherenceGraph) (id : PartitionId) :
    graph.totalWeight maxNodes id ≤ u64Max := by
  unfold totalWeight
  split
  · exact Nat.min_le_right _ _
  · exact Nat.zero_le _

theorem mutualBasisPoints_le (cached : ∀ cell : SumCell, Cached maxEdges cell graph) :
    graph.mutualBasisPoints maxNodes a b ≤ 10000 ∧
      (graph.mutualBasisPoints maxNodes a b ≤ mutualBoundBp ↔
        graph.totalWeight maxNodes a + graph.totalWeight maxNodes b ≤ u64Max ∨
          graph.edgeWeightBetween maxNodes a b * 10000 < (mutualBoundBp + 1) * u64Max) := by
  obtain ⟨left, right⟩ := @between_le maxNodes maxEdges graph cached a b
  have leftBound : graph.totalWeight maxNodes a ≤ u64Max := totalWeight_le graph a
  unfold mutualBasisPoints
  generalize graph.edgeWeightBetween maxNodes a b = between at left right ⊢
  generalize graph.totalWeight maxNodes a = totalA at left leftBound ⊢
  generalize graph.totalWeight maxNodes b = totalB at right ⊢
  have wide : 0 < u64Max := by decide
  have bound : mutualBoundBp = 5000 := rfl
  dsimp only
  by_cases fits : totalA + totalB ≤ u64Max
  · have combined : saturatingAdd64 totalA totalB = totalA + totalB := Nat.min_eq_left fits
    rw [combined]
    split
    · omega
    · rename_i positive
      have share : between * 10000 / (totalA + totalB) ≤ 5000 :=
        Nat.div_le_of_le_mul (by omega)
      omega
  · have combined : saturatingAdd64 totalA totalB = u64Max := Nat.min_eq_right (by omega)
    rw [combined, if_neg (by omega)]
    have half : between * 10000 / u64Max ≤ 5000 ↔ between * 10000 < (mutualBoundBp + 1) * u64Max :=
      Nat.lt_succ_iff.symm.trans (Nat.div_lt_iff_lt_mul wide)
    refine ⟨Nat.div_le_of_le_mul (Nat.mul_le_mul_right _ (left.trans leftBound)), ?_⟩
    rw [bound, half, bound]
    exact ⟨.inr, fun either => either.resolve_left fits⟩

theorem cached_lawful {history : List (GraphCall × GraphOutcome)} (cell : SumCell)
    (run : Run (Guarded (Step maxNodes maxEdges) (SumsLawful maxNodes maxEdges)) .new history graph) :
    Cached maxEdges cell graph :=
  run.stateInvariant cached_new.1 fun _ _ _ cached guarded =>
    (cached.step guarded.2.1 (guarded.2.2 cell) guarded.1).1

/-- Scores stay in range while weight is taken only from sums within 64 bits; a mutual coherence
is at most half while the totals do not saturate together. -/
theorem pressure_inRange {history : List (GraphCall × GraphOutcome)}
    (run : Run (Guarded (Step maxNodes maxEdges) (SumsLawful maxNodes maxEdges)) .new history graph) :
    (∀ id, graph.cutBasisPoints maxNodes maxEdges id ≤ 10000) ∧
      ∀ a b, 2 * graph.edgeWeightBetween maxNodes a b ≤
          graph.totalWeight maxNodes a + graph.totalWeight maxNodes b ∧
        asU16 (graph.mutualBasisPoints maxNodes a b) = graph.mutualBasisPoints maxNodes a b ∧
        (graph.mutualBasisPoints maxNodes a b ≤ mutualBoundBp ↔
          graph.totalWeight maxNodes a + graph.totalWeight maxNodes b ≤ u64Max ∨
            graph.edgeWeightBetween maxNodes a b * 10000 < (mutualBoundBp + 1) * u64Max) := by
  have cached := fun cell => cached_lawful cell run
  refine ⟨cutBasisPoints_le graph, fun a b => ?_⟩
  obtain ⟨left, right⟩ := @between_le maxNodes maxEdges graph cached a b
  obtain ⟨whole, half⟩ := @mutualBasisPoints_le maxNodes maxEdges graph a b cached
  exact ⟨by omega, Nat.mod_eq_of_lt (Nat.lt_of_le_of_lt whole (by decide)), half⟩

/-- The casts of `pressure.rs` lose nothing. -/
theorem computeCutPressure_eq (graph : CoherenceGraph) (id : PartitionId) :
    computeCutPressure graph id = ⟨graph.cutBasisPoints engineMaxNodes engineMaxEdges id⟩ := by
  have range : graph.cutBasisPoints engineMaxNodes engineMaxEdges id ≤ 10000 := cutBasisPoints_le graph id
  unfold computeCutPressure
  unfold cutBasisPoints at range ⊢
  dsimp only at range ⊢
  split
  · rfl
  · rename_i positive
    rw [if_neg positive] at range
    rw [asU32, Nat.mod_eq_of_lt (Nat.lt_of_le_of_lt range (by decide))]

theorem evaluateMerge_eq (cached : ∀ cell : SumCell, Cached engineMaxEdges cell graph) :
    evaluateMerge graph a b =
      ⟨a, b, .fromBasisPoints (graph.mutualBasisPoints engineMaxNodes a b),
        mergeCoherenceThresholdBp ≤ graph.mutualBasisPoints engineMaxNodes a b⟩ := by
  have range : graph.mutualBasisPoints engineMaxNodes a b ≤ 10000 := (mutualBasisPoints_le cached).1
  unfold evaluateMerge
  unfold mutualBasisPoints at range ⊢
  dsimp only at range ⊢
  split
  · rfl
  · rename_i positive
    rw [if_neg positive] at range
    rw [asU16, Nat.mod_eq_of_lt (Nat.lt_of_le_of_lt range (by decide)), Nat.min_eq_left range]

theorem addEdge_lawful {source target : PartitionId} {weight : Nat} {outcome : GraphOutcome}
    (narrow : maxEdges ≤ invalid) :
    SumsLawful maxNodes maxEdges graph (.addEdge source target weight, outcome) :=
  ⟨SlotFits.reusable fun _ _ _ free => Nat.lt_of_lt_of_le (freeSlot_eq_some free).1 narrow,
    fun _ => lowersWithin_of_grows fun _ => le_rfl⟩

theorem pressure_inRange_pair : ∃ history graph,
    Run (Guarded (Step 2 2) (SumsLawful 2 2)) .new history graph ∧
      graph.edgeWeightBetween 2 ⟨1⟩ ⟨2⟩ = 100 ∧ graph.mutualBasisPoints 2 ⟨1⟩ ⟨2⟩ ≤ mutualBoundBp := by
  have run : Run (Guarded (Step 2 2) (SumsLawful 2 2)) .new [(.addNode ⟨1⟩, .ok (.node 0)),
      (.addNode ⟨2⟩, .ok (.node 1)), (.addEdge ⟨1⟩ ⟨2⟩ 100, .ok (.edge 0))] _ :=
    .cons ⟨rfl, trivial, fun _ => lowersWithin_of_grows fun _ => le_rfl⟩ <|
      .cons ⟨rfl, trivial, fun _ => lowersWithin_of_grows fun _ => le_rfl⟩ <|
        .single ⟨rfl, addEdge_lawful (by decide)⟩
  exact ⟨_, _, run, by decide +kernel, (((pressure_inRange run).2 ⟨1⟩ ⟨2⟩).2.2).mpr (by decide +kernel)⟩

def applyAll (maxNodes maxEdges : Nat) (graph : CoherenceGraph) : List GraphCall → Option CoherenceGraph
  | [] => some graph
  | call :: rest =>
    (graph.apply maxNodes maxEdges call).bind fun done => applyAll maxNodes maxEdges done.2 rest

theorem run_applyAll {calls : List GraphCall} {final : CoherenceGraph}
    (returned : graph.applyAll maxNodes maxEdges calls = some final)
    {before : List (GraphCall × GraphOutcome)} (run : Run (Step maxNodes maxEdges) .new before graph) :
    ∃ history, Run (Step maxNodes maxEdges) .new history final := by
  induction calls generalizing graph before with
  | nil =>
    cases returned
    exact ⟨before, run⟩
  | cons call rest ih =>
    obtain ⟨⟨outcome, next⟩, applied, later⟩ := Option.bind_eq_some_iff.mp returned
    have step : Step maxNodes maxEdges graph (call, outcome) next := applied
    exact ih later (run.snoc step)

/-- Removing one of two edges of weight `u64::MAX` empties a sum that the other still
belongs to. -/
theorem pressure_broken : ∃ history graph, Run (Step 3 2) .new history graph ∧
    graph.totalWeight 3 ⟨1⟩ + graph.totalWeight 3 ⟨3⟩ < 2 * graph.edgeWeightBetween 3 ⟨1⟩ ⟨3⟩ ∧
    mutualBoundBp < graph.mutualBasisPoints 3 ⟨1⟩ ⟨3⟩ := by
  have reached : ((CoherenceGraph.new.applyAll 3 2 [.addNode ⟨1⟩, .addNode ⟨2⟩, .addNode ⟨3⟩,
      .addEdge ⟨1⟩ ⟨2⟩ u64Max, .addEdge ⟨1⟩ ⟨3⟩ u64Max, .removeNode ⟨2⟩]).any fun graph =>
        graph.totalWeight 3 ⟨1⟩ + graph.totalWeight 3 ⟨3⟩ < 2 * graph.edgeWeightBetween 3 ⟨1⟩ ⟨3⟩ ∧
          mutualBoundBp < graph.mutualBasisPoints 3 ⟨1⟩ ⟨3⟩) = true := by decide +kernel
  obtain ⟨graph, returned, broken⟩ := (Option.any_eq_true _ _).mp reached
  obtain ⟨history, run⟩ := run_applyAll returned .nil
  exact ⟨history, graph, run, of_decide_eq_true broken⟩

end CoherenceGraph

end Rvm.Coherence
