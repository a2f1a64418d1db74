import Rvm.Coherence.Graph

/-!
Owns the coherence engine of `rvm-coherence/src/engine.rs` with its built-in backends: the ratio
score of `scoring.rs`, the cut pressure and merge signal of `pressure.rs` and the recomputation
interval of `adaptive.rs`. The minimum cut backend, which no operation calls, is left out.
-/

namespace Rvm.Coherence

def engineMaxNodes : Nat := 32

def engineMaxEdges : Nat := 128

def computeCoherenceScore (graph : CoherenceGraph) (id : PartitionId) : CoherenceScore :=
  let total := graph.totalWeight engineMaxNodes id
  let internal := graph.internalWeight engineMaxNodes engineMaxEdges id
  if total = 0 then .max else .fromBasisPoints (asU16 (internal * 10000 / total))

def computeCutPressure (graph : CoherenceGraph) (id : PartitionId) : CutPressure :=
  let total := graph.totalWeight engineMaxNodes id
  let external := total - graph.internalWeight engineMaxNodes engineMaxEdges id
  ⟨if total = 0 then 0 else asU32 (external * 10000 / total)⟩

/-- Pressure above this signals the partition should split. -/
def splitThresholdBp : Nat := 8000

def mergeCoherenceThresholdBp : Nat := 4000

structure MergeSignal where
  partitionA : PartitionId
  partitionB : PartitionId
  mutualCoherence : CoherenceScore
  shouldMerge : Bool
deriving DecidableEq, Repr

def evaluateMerge (graph : CoherenceGraph) (a b : PartitionId) : MergeSignal :=
  let combined := saturatingAdd64 (graph.totalWeight engineMaxNodes a)
    (graph.totalWeight engineMaxNodes b)
  let mutualBp :=
    if combined = 0 then 0
    else min (asU16 (graph.edgeWeightBetween engineMaxNodes a b * 10000 / combined)) 10000
  ⟨a, b, .fromBasisPoints mutualBp, mergeCoherenceThresholdBp ≤ mutualBp⟩

structure AdaptiveCoherenceEngine where
  lastComputeEpoch : Nat
  computeCount : Nat
  currentInterval : Nat
  currentEpoch : Nat
deriving DecidableEq, Repr

namespace AdaptiveCoherenceEngine

def new : AdaptiveCoherenceEngine := ⟨0, 0, 1, 0⟩

/-- The interval for a load: every fourth epoch above 80 percent, every second
one above 60. -/
def intervalFor (cpuLoadPercent : Nat) : Nat :=
  if cpuLoadPercent > 80 then 4 else if cpuLoadPercent > 60 then 2 else 1

def tick (engine : AdaptiveCoherenceEngine) (cpuLoadPercent : Nat) :
    Bool × AdaptiveCoherenceEngine :=
  let epoch := asU32 (engine.currentEpoch + 1)
  let interval := intervalFor cpuLoadPercent
  let due := engine.computeCount = 0 ∨
    interval ≤ asU32 (epoch + 4294967296 - engine.lastComputeEpoch)
  (due, { engine with currentEpoch := epoch, currentInterval := interval })

def recordComputation (engine : AdaptiveCoherenceEngine) : AdaptiveCoherenceEngine :=
  { engine with
    lastComputeEpoch := engine.currentEpoch
    computeCount := asU32 (engine.computeCount + 1) }

end AdaptiveCoherenceEngine

/-- What an epoch tick recommends. -/
inductive CoherenceDecision where
  | noAction
  | splitRecommended (partition : PartitionId) (pressure : CutPressure)
  | mergeRecommended (a b : PartitionId) (mutualCoherence : CoherenceScore)
deriving DecidableEq, Repr

structure PartitionEntry where
  id : PartitionId
  score : CoherenceScore
  pressure : CutPressure
  active : Bool
deriving DecidableEq, Repr

def PartitionEntry.empty : PartitionEntry := ⟨.hypervisor, .max, .zero, false⟩

structure CoherenceEngine where
  graph : CoherenceGraph
  adaptive : AdaptiveCoherenceEngine
  entries : Nat → PartitionEntry
  epoch : Nat

namespace CoherenceEngine

def new : CoherenceEngine := ⟨.new, .new, fun _ => .empty, 0⟩

def setEntry (engine : CoherenceEngine) (i : Nat) (entry : PartitionEntry) : CoherenceEngine :=
  { engine with entries := Function.update engine.entries i entry }

def findEntry (engine : CoherenceEngine) (id : PartitionId) : Option Nat :=
  (List.range engineMaxNodes).find? fun i =>
    (engine.entries i).active = true ∧ (engine.entries i).id = id

/-- Register a partition; an entry slot may be missing although the graph took
the node. -/
def addPartition (engine : CoherenceEngine) (id : PartitionId) :
    Except RvmError Unit × CoherenceEngine :=
  match engine.graph.addNode engineMaxNodes id with
  | .error .duplicateNode => (.error .invalidPartitionState, engine)
  | .error .nodeCapacityExhausted => (.error .resourceLimitExceeded, engine)
  | .error _ => (.error .internalError, engine)
  | .ok (_, graph) =>
    match (List.range engineMaxNodes).find? fun i => (engine.entries i).active = false with
    | some i => (.ok (), { engine with graph := graph }.setEntry i ⟨id, .max, .zero, true⟩)
    | none => (.error .resourceLimitExceeded, { engine with graph := graph })

def clearEntry (engine : CoherenceEngine) (id : PartitionId) : CoherenceEngine :=
  match engine.findEntry id with
  | some i => engine.setEntry i { engine.entries i with active := false }
  | none => engine

def removePartition (engine : CoherenceEngine) (id : PartitionId) :
    Option (Except RvmError Unit × CoherenceEngine) :=
  (engine.graph.removeNode engineMaxNodes engineMaxEdges id).map fun
    | .error _ => (.error .partitionNotFound, engine)
    | .ok graph => (.ok (), { engine with graph := graph }.clearEntry id)

/-- Strengthen the edge between two partitions, creating it if there is none.
The weight is clamped to `i64::MAX` as an increment, not as a first weight. -/
def recordCommunication (engine : CoherenceEngine) (source target : PartitionId) (weight : Nat) :
    Option (Except RvmError Unit × CoherenceEngine) :=
  (engine.graph.findDirectedEdge engineMaxNodes engineMaxEdges source target).map fun
    | some edgeIdx =>
      match engine.graph.updateWeight engineMaxEdges edgeIdx (min weight 9223372036854775807) with
      | .ok graph => (.ok (), { engine with graph := graph })
      | .error _ => (.error .internalError, engine)
    | none =>
      match engine.graph.addEdge engineMaxNodes engineMaxEdges source target weight with
      | .ok (_, graph) => (.ok (), { engine with graph := graph })
      | .error .edgeCapacityExhausted => (.error .resourceLimitExceeded, engine)
      | .error .nodeNotFound => (.error .partitionNotFound, engine)
      | .error _ => (.error .internalError, engine)

/-- The latest score; an unknown partition is fully coherent. -/
def score (engine : CoherenceEngine) (id : PartitionId) : CoherenceScore :=
  match engine.findEntry id with
  | some i => (engine.entries i).score
  | none => .max

def pressure (engine : CoherenceEngine) (id : PartitionId) : CutPressure :=
  match engine.findEntry id with
  | some i => (engine.entries i).pressure
  | none => .zero

def bestSplit (engine : CoherenceEngine) : Option PartitionEntry :=
  (List.range engineMaxNodes).foldl (fun best i =>
    let entry := engine.entries i
    if entry.active = true ∧ splitThresholdBp < entry.pressure.asFixed then
      match best with
      | none => some entry
      | some found => if found.pressure.asFixed < entry.pressure.asFixed then some entry else best
    else best) none

/-- The pairs of entry slots in the order of the nested loops. -/
def entryPairs : List (Nat × Nat) :=
  (List.range engineMaxNodes).flatMap fun i =>
    (List.range' (i + 1) (engineMaxNodes - (i + 1))).map fun j => (i, j)

def bestMerge (engine : CoherenceEngine) : Option MergeSignal :=
  entryPairs.foldl (fun best slots =>
    let left := engine.entries slots.1
    let right := engine.entries slots.2
    let signal := evaluateMerge engine.graph left.id right.id
    if left.active = true ∧ right.active = true ∧ signal.shouldMerge = true then
      match best with
      | none => some signal
      | some found =>
        if found.mutualCoherence.basisPoints < signal.mutualCoherence.basisPoints then some signal
        else best
    else best) none

/-- The strongest split, else the strongest merge. -/
def recommend (engine : CoherenceEngine) : CoherenceDecision :=
  match engine.bestSplit with
  | some entry => .splitRecommended entry.id entry.pressure
  | none =>
    match engine.bestMerge with
    | some signal => .mergeRecommended signal.partitionA signal.partitionB signal.mutualCoherence
    | none => .noAction

def recompute (engine : CoherenceEngine) : CoherenceEngine :=
  { engine with
    entries := fun i =>
      let entry := engine.entries i
      if entry.active = true then
        { entry with
          score := computeCoherenceScore engine.graph entry.id
          pressure := computeCutPressure engine.graph entry.id }
      else entry }

/-- Edge weight decay per epoch, in basis points. -/
def edgeDecayBp : Nat := 500

def advance (engine : CoherenceEngine) (cpuLoadPercent : Nat) : Option (Bool × CoherenceEngine) :=
  (engine.graph.decayWeights engineMaxEdges edgeDecayBp).map fun decayed =>
    let adaptive := engine.adaptive.tick cpuLoadPercent
    (adaptive.1,
      { engine with
        graph := decayed.1
        adaptive := adaptive.2
        epoch := asU64 (engine.epoch + 1) })

def tick (engine : CoherenceEngine) (cpuLoadPercent : Nat) :
    Option (CoherenceDecision × CoherenceEngine) :=
  (engine.advance cpuLoadPercent).map fun advanced =>
    if advanced.1 then
      let recomputed := { advanced.2.recompute with
        adaptive := advanced.2.adaptive.recordComputation }
      (recomputed.recommend, recomputed)
    else (advanced.2.recommend, advanced.2)

end CoherenceEngine

end Rvm.Coherence
