import Rvm.Coherence.Graph

/-!
Owns the minimum cut of `rvm-coherence/src/mincut.rs`: the collected neighbourhood, the
local weight matrix, the phases with their merges, and the counters. Fixed arrays are lists.
A walk that never ends returns `none`.
-/

namespace Rvm.Coherence

def mincutMaxNodes : Nat := 32

structure MinCutResult where
  left : List PartitionId
  right : List PartitionId
  cutWeight : Nat
  withinBudget : Bool
deriving DecidableEq, Repr

def MinCutResult.empty : MinCutResult := ⟨[], [], 0, true⟩

structure MinCutBridge where
  lastKnownCut : MinCutResult
  epoch : Nat
  budgetExceededCount : Nat
  computeCount : Nat
  maxIterations : Nat
deriving DecidableEq, Repr

namespace CoherenceGraph

variable (maxNodes maxEdges : Nat) (graph : CoherenceGraph)

def addSubNode (subNodes : List (Nat × PartitionId)) (idx : Nat) : List (Nat × PartitionId) :=
  match graph.partitionAt maxNodes idx with
  | some pid =>
    if subNodes.any fun node => node.1 = idx then subNodes else subNodes ++ [(idx, pid)]
  | none => subNodes

def collectNeighbors : Nat → Nat → List (Nat × PartitionId) → Option (List (Nat × PartitionId))
  | 0, _, _ => none
  | fuel + 1, cur, subNodes =>
    if cur = invalid ∨ cur ≥ maxEdges then some subNodes
    else if (graph.edges cur).active = false then
      collectNeighbors fuel (graph.edges cur).nextFrom subNodes
    else if subNodes.length ≥ mincutMaxNodes then some subNodes
    else
      collectNeighbors fuel (graph.edges cur).nextFrom
        (graph.addSubNode maxNodes subNodes (graph.edges cur).toNode)

def collectIncoming (root : Nat) (subNodes : List (Nat × PartitionId)) :
    List (Nat × PartitionId) :=
  (List.range maxEdges).foldl (fun subNodes i =>
    let edge := graph.edges i
    if edge.active = true ∧ edge.toNode = root ∧ subNodes.length < mincutMaxNodes then
      graph.addSubNode maxNodes subNodes edge.fromNode
    else subNodes) subNodes

/-- The local subgraph: the partition and its neighbours. -/
def collect (id : PartitionId) : Option (List (Nat × PartitionId)) :=
  match graph.findNode maxNodes id with
  | none => some []
  | some root =>
    (graph.collectNeighbors maxNodes maxEdges (maxEdges + 1) (graph.nodes root).firstEdge
      [(root, id)]).map fun subNodes => graph.collectIncoming maxNodes maxEdges root subNodes

/-- The local weight matrix: edges in both directions, none on the diagonal. -/
def localWeight (subNodes : List (Nat × PartitionId)) (i j : Nat) : Nat :=
  if i = j then 0
  else
    match subNodes[i]?, subNodes[j]? with
    | some (ni, _), some (nj, _) =>
      match graph.partitionAt maxNodes ni, graph.partitionAt maxNodes nj with
      | some pi, some pj => graph.edgeWeightBetween maxNodes pi pj
      | _, _ => 0
    | _, _ => 0

end CoherenceGraph

structure PhaseState where
  inA : Nat → Bool
  key : Nat → Nat
  secondToLast : Nat
  last : Nat

/-- The most tightly connected active node that is not in `A`: the largest key,
the node and whether there is one. The first of equal keys is taken. -/
def tightest (n : Nat) (active inA : Nat → Bool) (key : Nat → Nat) : Nat × Nat × Bool :=
  (List.range n).foldl (fun best i =>
    if active i = true ∧ inA i = false ∧ (key i > best.1 ∨ best.2.2 = false) then (key i, i, true)
    else best) (0, 0, false)

/-- The first active node is in `A`; the keys are its weights. -/
def startPhase (n : Nat) (w : Nat → Nat → Nat) (active : Nat → Bool) : PhaseState :=
  let start := ((List.range n).find? active).getD 0
  let inA := Function.update (fun _ => false) start true
  { inA := inA
    key := fun i => if i < n ∧ active i = true ∧ inA i = false then w start i else 0
    secondToLast := 0
    last := start }

def PhaseState.advance (n : Nat) (w : Nat → Nat → Nat) (active : Nat → Bool) (phase : PhaseState) :
    PhaseState :=
  let maxNode := (tightest n active phase.inA phase.key).2.1
  let inA := Function.update phase.inA maxNode true
  { inA := inA
    key := fun i =>
      if i < n ∧ active i = true ∧ inA i = false then saturatingAdd64 (phase.key i) (w maxNode i)
      else phase.key i
    secondToLast := phase.last
    last := maxNode }

/-- `A` grows until every active node is in it. -/
def minimumCutPhase (n : Nat) (w : Nat → Nat → Nat) (active : Nat → Bool) (activeCount : Nat) :
    PhaseState :=
  Nat.repeat (PhaseState.advance n w active) (activeCount - 1) (startPhase n w active)

structure CutState where
  w : Nat → Nat → Nat
  groups : Nat → Nat → Bool
  active : Nat → Bool
  bestCutWeight : Nat
  bestCutNode : Nat
  iterationCount : Nat

def mergeWeights (n : Nat) (active : Nat → Bool) (s t : Nat) (w : Nat → Nat → Nat) (i j : Nat) :
    Nat :=
  if i = s ∧ j < n ∧ active j = true ∧ j ≠ s ∧ j ≠ t then saturatingAdd64 (w s j) (w t j)
  else if j = s ∧ i < n ∧ active i = true ∧ i ≠ s ∧ i ≠ t then saturatingAdd64 (w i s) (w i t)
  else w i j

def mergeGroups (n s t : Nat) (groups : Nat → Nat → Bool) : Nat → Nat → Bool :=
  Function.update groups s fun i => groups s i || (decide (i < n) && groups t i)

def CutState.contract (n : Nat) (state : CutState) (phase : PhaseState) : CutState :=
  let s := phase.secondToLast
  let t := phase.last
  let improves := phase.key t < state.bestCutWeight
  { w := mergeWeights n state.active s t state.w
    groups := mergeGroups n s t state.groups
    active := Function.update state.active t false
    bestCutWeight := if improves then phase.key t else state.bestCutWeight
    bestCutNode := if improves then t else state.bestCutNode
    iterationCount := state.iterationCount + 1 }

def CutState.step (n activeCount : Nat) (state : CutState) : CutState :=
  state.contract n (minimumCutPhase n state.w state.active activeCount)

/-- Phases until one node is left; an error when the budget is spent before. -/
def runPhases (n maxIterations : Nat) : Nat → CutState → Except CutState CutState
  | 0, state => .ok state
  | 1, state => .ok state
  | activeCount + 2, state =>
    if state.iterationCount ≥ maxIterations then .error state
    else runPhases n maxIterations (activeCount + 1) (state.step n (activeCount + 2))

def initialState (adj : Nat → Nat → Nat) (n : Nat) : CutState where
  w := fun i j => if i < n ∧ j < n then adj i j else 0
  groups := fun i j => decide (i < n ∧ i = j)
  active := fun i => decide (i < n)
  bestCutWeight := u64Max
  bestCutNode := 0
  iterationCount := 0

def appendSide (side : List PartitionId) (pid : PartitionId) : List PartitionId :=
  if side.length < mincutMaxNodes then side ++ [pid] else side

def buildResult (subNodes : List (Nat × PartitionId)) (groups : Nat → Nat → Bool)
    (cutNode n : Nat) : MinCutResult :=
  (List.range n).foldl (fun result i =>
    match subNodes[i]? with
    | some (_, pid) =>
      if groups cutNode i then { result with left := appendSide result.left pid }
      else { result with right := appendSide result.right pid }
    | none => result) .empty

def CutState.result (state : CutState) (subNodes : List (Nat × PartitionId)) (n : Nat)
    (withinBudget : Bool) : MinCutResult :=
  { buildResult subNodes state.groups state.bestCutNode n with
    cutWeight := state.bestCutWeight
    withinBudget := withinBudget }

def stoerWagnerMincut (adj : Nat → Nat → Nat) (n : Nat) (subNodes : List (Nat × PartitionId))
    (maxIterations : Nat) : Except MinCutResult MinCutResult :=
  if n < 2 then .ok .empty
  else
    match runPhases n maxIterations n (initialState adj n) with
    | .error state => .error (state.result subNodes n false)
    | .ok state => .ok (state.result subNodes n true)

namespace MinCutBridge

def new (maxIterations : Nat) : MinCutBridge := ⟨.empty, 0, 0, 0, maxIterations⟩

def advanceEpoch (bridge : MinCutBridge) : MinCutBridge :=
  { bridge with epoch := asU32 (bridge.epoch + 1) }

def completed (bridge : MinCutBridge) (cut : MinCutResult) : MinCutBridge :=
  { bridge with lastKnownCut := cut, computeCount := asU32 (bridge.computeCount + 1) }

def exceeded (bridge : MinCutBridge) (partialCut : MinCutResult) : MinCutBridge :=
  { bridge with
    lastKnownCut := { partialCut with withinBudget := false }
    budgetExceededCount := asU32 (bridge.budgetExceededCount + 1) }

def cutOf (maxNodes : Nat) (graph : CoherenceGraph) (bridge : MinCutBridge)
    (subNodes : List (Nat × PartitionId)) : MinCutBridge :=
  if subNodes.length < 2 then
    bridge.completed { MinCutResult.empty with left := subNodes.map Prod.snd }
  else
    match stoerWagnerMincut (graph.localWeight maxNodes subNodes) subNodes.length subNodes
        bridge.maxIterations with
    | .ok cut => bridge.completed cut
    | .error partialCut => bridge.exceeded partialCut

/-- The minimum cut around a partition; the result is the bridge's last known
cut. -/
def findMinCut (maxNodes maxEdges : Nat) (graph : CoherenceGraph) (bridge : MinCutBridge)
    (id : PartitionId) : Option MinCutBridge :=
  (graph.collect maxNodes maxEdges id).map (bridge.advanceEpoch.cutOf maxNodes graph)

end MinCutBridge

end Rvm.Coherence
