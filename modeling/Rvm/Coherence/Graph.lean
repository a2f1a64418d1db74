import Mathlib.Data.List.Range
import Rvm.Types.Basic
import Rvm.Types.Capability

/-!
Owns the fixed-size coherence graph of `rvm-coherence/src/graph.rs`: partition nodes with a hashed
index, directed weighted edges on one intrusive list per source node, and the cached weight sums.
A walk returns `none` where the source never returns or leaves the edge array. `MAX_NODES` is at
most the matrix dimension `32`, so that node index casts are exact.
-/

namespace Rvm.Coherence

open Function

/-- The sentinel `u16::MAX` that ends an adjacency list. -/
def invalid : Nat := 65535

structure Node where
  partition : Option PartitionId
  firstEdge : Nat
deriving DecidableEq, Repr

def Node.empty : Node := ⟨none, invalid⟩

/-- A directed weighted edge; `nextFrom` continues the list of its source. -/
structure Edge where
  fromNode : Nat
  toNode : Nat
  weight : Nat
  nextFrom : Nat
  active : Bool
deriving DecidableEq, Repr

def Edge.empty : Edge := ⟨0, 0, 0, invalid, false⟩

inductive GraphError where
  | nodeCapacityExhausted | edgeCapacityExhausted | nodeNotFound | edgeNotFound | duplicateNode
deriving DecidableEq, Repr

structure CoherenceGraph where
  nodes : Nat → Node
  edges : Nat → Edge
  /-- Maps `PartitionId % 256` to a node index. -/
  idToNode : Nat → Option Nat
  adjMatrix : Nat → Nat → Nat
  cachedOutgoing : Nat → Nat
  cachedIncoming : Nat → Nat
  nodeCount : Nat
  edgeCount : Nat

namespace CoherenceGraph

def new : CoherenceGraph :=
  ⟨fun _ => .empty, fun _ => .empty, fun _ => none, fun _ _ => 0, fun _ => 0, fun _ => 0, 0, 0⟩

def hashOf (id : PartitionId) : Nat := id.asU32 % 256

/-- The node of a partition: the direct index first, then a linear scan. -/
def findNode (maxNodes : Nat) (graph : CoherenceGraph) (id : PartitionId) : Option Nat :=
  let indexed := (graph.idToNode (hashOf id)).filter fun i =>
    i < maxNodes ∧ (graph.nodes i).partition = some id
  indexed.or ((List.range maxNodes).find? fun i => (graph.nodes i).partition = some id)

def partitionAt (maxNodes : Nat) (graph : CoherenceGraph) (idx : Nat) : Option PartitionId :=
  if idx < maxNodes then (graph.nodes idx).partition else none

def addNode (maxNodes : Nat) (graph : CoherenceGraph) (id : PartitionId) :
    Except GraphError (Nat × CoherenceGraph) :=
  if (graph.findNode maxNodes id).isSome then .error .duplicateNode
  else
    match (List.range maxNodes).find? fun i => (graph.nodes i).partition.isNone with
    | some i =>
      .ok (i,
        { graph with
          nodes := update graph.nodes i ⟨some id, invalid⟩
          nodeCount := graph.nodeCount + 1
          idToNode := update graph.idToNode (hashOf id) (some i) })
    | none => .error .nodeCapacityExhausted

/-- Apply a change to the matrix entry and the two sums an edge contributes to. -/
def adjustWeights (graph : CoherenceGraph) (fromIdx toIdx : Nat) (change : Nat → Nat) :
    CoherenceGraph :=
  { graph with
    adjMatrix := update graph.adjMatrix fromIdx
      (update (graph.adjMatrix fromIdx) toIdx (change (graph.adjMatrix fromIdx toIdx)))
    cachedOutgoing :=
      update graph.cachedOutgoing fromIdx (change (graph.cachedOutgoing fromIdx))
    cachedIncoming := update graph.cachedIncoming toIdx (change (graph.cachedIncoming toIdx)) }

def setEdge (graph : CoherenceGraph) (idx : Nat) (edge : Edge) : CoherenceGraph :=
  { graph with edges := update graph.edges idx edge }

def setFirstEdge (graph : CoherenceGraph) (node first : Nat) : CoherenceGraph :=
  { graph with
    nodes := update graph.nodes node { graph.nodes node with firstEdge := first } }

/-- The first free edge slot, as an `EdgeIdx`. -/
def allocEdge (maxEdges : Nat) (graph : CoherenceGraph) : Except GraphError Nat :=
  match (List.range maxEdges).find? fun i => (graph.edges i).active = false with
  | some i => .ok (asU16 i)
  | none => .error .edgeCapacityExhausted

/-- Link a new edge at the head of its source's list. -/
def linkEdge (graph : CoherenceGraph) (edgeIdx fromIdx toIdx weight : Nat) : CoherenceGraph :=
  let linked := (graph.setEdge edgeIdx
    ⟨fromIdx, toIdx, weight, (graph.nodes fromIdx).firstEdge, true⟩).setFirstEdge fromIdx edgeIdx
  { linked with edgeCount := asU16 (graph.edgeCount + 1) }.adjustWeights fromIdx toIdx
    fun sum => saturatingAdd64 sum weight

def addEdge (maxNodes maxEdges : Nat) (graph : CoherenceGraph) (source target : PartitionId)
    (weight : Nat) : Except GraphError (Nat × CoherenceGraph) :=
  match graph.findNode maxNodes source with
  | none => .error .nodeNotFound
  | some fromIdx =>
    match graph.findNode maxNodes target with
    | none => .error .nodeNotFound
    | some toIdx =>
      match graph.allocEdge maxEdges with
      | .error e => .error e
      | .ok edgeIdx => .ok (edgeIdx, graph.linkEdge edgeIdx fromIdx toIdx weight)

def updateWeight (maxEdges : Nat) (graph : CoherenceGraph) (edgeId : Nat) (delta : Int) :
    Except GraphError CoherenceGraph :=
  let edge := graph.edges edgeId
  if edgeId ≥ maxEdges ∨ edge.active = false then .error .edgeNotFound
  else
    let newWeight :=
      if 0 ≤ delta then saturatingAdd64 edge.weight delta.toNat else edge.weight - delta.natAbs
    .ok ((graph.setEdge edgeId { edge with weight := newWeight }).adjustWeights edge.fromNode
      edge.toNode fun sum => saturatingAdd64 (sum - edge.weight) newWeight)

/-- Walk a list to the predecessor of an edge and make it skip the edge. -/
def skipEdge (maxEdges : Nat) (graph : CoherenceGraph) (edgeIdx : Nat) :
    Nat → Nat → Option CoherenceGraph
  | 0, _ => none
  | fuel + 1, cur =>
    if cur = invalid then some graph
    else if cur ≥ maxEdges then none
    else if (graph.edges cur).nextFrom = edgeIdx then
      some (graph.setEdge cur
        { graph.edges cur with nextFrom := (graph.edges edgeIdx).nextFrom })
    else skipEdge maxEdges graph edgeIdx fuel (graph.edges cur).nextFrom

/-- Take an edge off the list of its source. A walk of more than `maxEdges + 1`
steps has met an edge twice and never ends. -/
def unlinkEdge (maxEdges : Nat) (graph : CoherenceGraph) (edgeIdx : Nat) : Option CoherenceGraph :=
  let fromNode := (graph.edges edgeIdx).fromNode
  if (graph.nodes fromNode).firstEdge = edgeIdx then
    some (graph.setFirstEdge fromNode (graph.edges edgeIdx).nextFrom)
  else skipEdge maxEdges graph edgeIdx (maxEdges + 1) (graph.nodes fromNode).firstEdge

def releaseEdge (graph : CoherenceGraph) (edgeIdx : Nat) : CoherenceGraph :=
  { graph.setEdge edgeIdx { graph.edges edgeIdx with active := false } with
    edgeCount := graph.edgeCount - 1 }

def removeEdgeByIndex (maxEdges : Nat) (graph : CoherenceGraph) (edgeIdx : Nat) :
    Option CoherenceGraph :=
  let edge := graph.edges edgeIdx
  if edgeIdx ≥ maxEdges ∨ edge.active = false then some graph
  else
    ((graph.adjustWeights edge.fromNode edge.toNode fun sum => sum - edge.weight).unlinkEdge
      maxEdges edgeIdx).map fun unlinked => unlinked.releaseEdge edgeIdx

def removeIncident (maxEdges idx : Nat) (graph : CoherenceGraph) (i : Nat) : Option CoherenceGraph :=
  let edge := graph.edges i
  if edge.active = true ∧ (edge.fromNode = idx ∨ edge.toNode = idx) then
    graph.removeEdgeByIndex maxEdges (asU16 i)
  else some graph

/-- Clear the entries of a node: index, slot, matrix row and column, sums. -/
def clearNode (graph : CoherenceGraph) (id : PartitionId) (idx : Nat) : CoherenceGraph where
  nodes := update graph.nodes idx .empty
  edges := graph.edges
  idToNode :=
    if graph.idToNode (hashOf id) = some idx then
      update graph.idToNode (hashOf id) none
    else graph.idToNode
  adjMatrix := fun i j => if i = idx ∨ j = idx then 0 else graph.adjMatrix i j
  cachedOutgoing := update graph.cachedOutgoing idx 0
  cachedIncoming := update graph.cachedIncoming idx 0
  nodeCount := graph.nodeCount - 1
  edgeCount := graph.edgeCount

def removeNode (maxNodes maxEdges : Nat) (graph : CoherenceGraph) (id : PartitionId) :
    Option (Except GraphError CoherenceGraph) :=
  match graph.findNode maxNodes id with
  | none => some (.error .nodeNotFound)
  | some idx =>
    ((List.range maxEdges).foldlM (removeIncident maxEdges idx) graph).map fun stripped =>
      .ok (stripped.clearNode id idx)

def totalWeight (maxNodes : Nat) (graph : CoherenceGraph) (id : PartitionId) : Nat :=
  match graph.findNode maxNodes id with
  | some i => saturatingAdd64 (graph.cachedOutgoing i) (graph.cachedIncoming i)
  | none => 0

def internalWeight (maxNodes maxEdges : Nat) (graph : CoherenceGraph) (id : PartitionId) : Nat :=
  match graph.findNode maxNodes id with
  | none => 0
  | some idx =>
    (List.range maxEdges).foldl (fun sum i =>
      let edge := graph.edges i
      if edge.active = true ∧ edge.fromNode = idx ∧ edge.toNode = idx then
        saturatingAdd64 sum edge.weight
      else sum) 0

def edgeWeightBetween (maxNodes : Nat) (graph : CoherenceGraph) (a b : PartitionId) : Nat :=
  match graph.findNode maxNodes a, graph.findNode maxNodes b with
  | some i, some j => saturatingAdd64 (graph.adjMatrix i j) (graph.adjMatrix j i)
  | _, _ => 0

def edgeTo (maxEdges : Nat) (graph : CoherenceGraph) (toIdx : Nat) :
    Nat → Nat → Option (Option Nat)
  | 0, _ => none
  | fuel + 1, cur =>
    if cur = invalid ∨ cur ≥ maxEdges then some none
    else if (graph.edges cur).active = true ∧ (graph.edges cur).toNode = toIdx then
      some (some cur)
    else edgeTo maxEdges graph toIdx fuel (graph.edges cur).nextFrom

def findDirectedEdge (maxNodes maxEdges : Nat) (graph : CoherenceGraph)
    (source target : PartitionId) : Option (Option Nat) :=
  match graph.findNode maxNodes source, graph.findNode maxNodes target with
  | some fromIdx, some toIdx =>
    if graph.adjMatrix fromIdx toIdx = 0 then some none
    else edgeTo maxEdges graph toIdx (maxEdges + 1) (graph.nodes fromIdx).firstEdge
  | _, _ => some none

def decayEdge (maxEdges decayBp : Nat) (state : CoherenceGraph × Nat) (i : Nat) :
    Option (CoherenceGraph × Nat) :=
  let edge := state.1.edges i
  let newWeight := min (edge.weight * (10000 - decayBp)) u64Max / 10000
  if edge.active = false then some state
  else if newWeight = 0 then
    (state.1.removeEdgeByIndex maxEdges (asU16 i)).map fun graph =>
      (graph, asU16 (state.2 + 1))
  else
    some ((state.1.setEdge i { edge with weight := newWeight }).adjustWeights edge.fromNode
      edge.toNode fun sum => sum - (edge.weight - newWeight), state.2)

/-- Decay all weights by basis points; also returns the number of edges pruned. -/
def decayWeights (maxEdges : Nat) (graph : CoherenceGraph) (decayBp : Nat) :
    Option (CoherenceGraph × Nat) :=
  (List.range maxEdges).foldlM (decayEdge maxEdges decayBp) (graph, 0)

end CoherenceGraph

end Rvm.Coherence
