import Rvm.Coherence.Graph
import Rvm.Foundation.Run
import Rvm.Foundation.Slots
import Rvm.Foundation.Threaded

/-!
Owns the representation invariant of the coherence graph: adjacency lists,
endpoints, counts and identifiers, that every mutator restores it and returns,
and the runs of the mutators.
-/

namespace Rvm.Coherence

open Foundation Function List Edge

namespace CoherenceGraph

variable {maxNodes maxEdges : Nat} {graph next : CoherenceGraph} {id : PartitionId}

/-! ### The invariant -/

def successor (graph : CoherenceGraph) (edge : Nat) : Nat := (graph.edges edge).nextFrom

def edgeActive (graph : CoherenceGraph) (edge : Nat) : Bool := (graph.edges edge).active

def nodeActive (graph : CoherenceGraph) (node : Nat) : Bool := (graph.nodes node).partition.isSome

def Adjacency (graph : CoherenceGraph) (node : Nat) (cells : List Nat) : Prop :=
  Threads graph.successor invalid (graph.nodes node).firstEdge cells

/-- The linear scan that the direct index shortens. -/
def scanNode (maxNodes : Nat) (graph : CoherenceGraph) (id : PartitionId) : Option Nat :=
  (List.range maxNodes).find? fun i => (graph.nodes i).partition = some id

/-- Every list ends, meets no edge twice, and holds exactly the active edges of its node, which
join active nodes; the counts count. -/
structure WellFormed (maxNodes maxEdges : Nat) (graph : CoherenceGraph) : Prop where
  lists : ∀ node, node < maxNodes → ∃ cells, graph.Adjacency node cells ∧ cells.Nodup ∧
    ∀ edge, edge ∈ cells ↔
      edge < maxEdges ∧ graph.edgeActive edge = true ∧ (graph.edges edge).fromNode = node
  source : ∀ edge, edge < maxEdges → graph.edgeActive edge = true →
    (graph.edges edge).fromNode < maxNodes ∧ graph.nodeActive (graph.edges edge).fromNode = true
  target : ∀ edge, edge < maxEdges → graph.edgeActive edge = true →
    (graph.edges edge).toNode < maxNodes ∧ graph.nodeActive (graph.edges edge).toNode = true
  nodeCount : graph.nodeCount = occupied maxNodes graph.nodeActive
  edgeCount : graph.edgeCount = occupied maxEdges graph.edgeActive
  ids : ∀ i j id, i < maxNodes → j < maxNodes → (graph.nodes i).partition = some id →
    (graph.nodes j).partition = some id → i = j

/-- Well formed, with no edge in the slot that the sentinel names or beyond. -/
structure Sound (maxNodes maxEdges : Nat) (graph : CoherenceGraph) : Prop
    extends WellFormed maxNodes maxEdges graph where
  below : ∀ edge, edge < maxEdges → graph.edgeActive edge = true → edge < invalid

/-! ### Lookup -/

variable {i gone : Nat}

theorem scanNode_eq_some (found : graph.scanNode maxNodes id = some i) :
    i < maxNodes ∧ (graph.nodes i).partition = some id :=
  ⟨mem_range.mp (mem_of_find?_eq_some found), by simpa using List.find?_some found⟩

theorem WellFormed.findNode_eq (formed : WellFormed maxNodes maxEdges graph) (id : PartitionId) :
    graph.findNode maxNodes id = graph.scanNode maxNodes id := by
  unfold findNode
  change ((graph.idToNode (hashOf id)).filter _).or (graph.scanNode maxNodes id) = _
  cases indexed : (graph.idToNode (hashOf id)).filter fun i =>
      i < maxNodes ∧ (graph.nodes i).partition = some id with
  | none => exact Option.none_or
  | some i =>
    have held : i < maxNodes ∧ (graph.nodes i).partition = some id := by
      simpa using (Option.filter_eq_some_iff.mp indexed).2
    cases scanned : graph.scanNode maxNodes id with
    | none =>
      have missing := List.find?_eq_none.mp scanned i (mem_range.mpr held.1)
      exact absurd held.2 (by simpa using missing)
    | some j =>
      obtain ⟨inside, sameId⟩ := scanNode_eq_some scanned
      rw [Option.some_or, formed.ids i j id held.1 inside held.2 sameId]

theorem WellFormed.findNode_some (formed : WellFormed maxNodes maxEdges graph)
    (found : graph.findNode maxNodes id = some i) :
    i < maxNodes ∧ (graph.nodes i).partition = some id :=
  scanNode_eq_some (formed.findNode_eq id ▸ found)

theorem WellFormed.findNode_none (formed : WellFormed maxNodes maxEdges graph)
    (missing : graph.findNode maxNodes id = none) (inside : i < maxNodes) :
    (graph.nodes i).partition ≠ some id := by
  rw [formed.findNode_eq id] at missing
  simpa using List.find?_eq_none.mp missing i (mem_range.mpr inside)

theorem WellFormed.list (formed : WellFormed maxNodes maxEdges graph) {node : Nat}
    (inside : node < maxNodes) :
    ∃ cells, graph.Adjacency node cells ∧ cells.length ≤ maxEdges ∧
      ∀ edge, edge ∈ cells ↔
        edge < maxEdges ∧ graph.edgeActive edge = true ∧ (graph.edges edge).fromNode = node := by
  obtain ⟨cells, threads, nodup, members⟩ := formed.lists node inside
  have within : cells ⊆ List.range maxEdges := fun edge member =>
    mem_range.mpr ((members edge).mp member).1
  have bound := (nodup.subperm within).length_le
  rw [length_range] at bound
  exact ⟨cells, threads, bound, members⟩

/-! ### Changes that keep the shape -/

/-- Two graphs that differ in weights, sums and the direct index only. -/
structure SameShape (graph next : CoherenceGraph) : Prop where
  nodes : next.nodes = graph.nodes
  active : ∀ edge, (next.edges edge).active = (graph.edges edge).active
  fromNode : ∀ edge, (next.edges edge).fromNode = (graph.edges edge).fromNode
  toNode : ∀ edge, (next.edges edge).toNode = (graph.edges edge).toNode
  nextFrom : ∀ edge, (next.edges edge).nextFrom = (graph.edges edge).nextFrom
  nodeCount : next.nodeCount = graph.nodeCount
  edgeCount : next.edgeCount = graph.edgeCount

theorem SameShape.sound (same : SameShape graph next) (sound : Sound maxNodes maxEdges graph) :
    Sound maxNodes maxEdges next := by
  have edges : next.edgeActive = graph.edgeActive := funext same.active
  have nodes : next.nodeActive = graph.nodeActive := by
    funext node
    rw [nodeActive, same.nodes, nodeActive]
  have successors : next.successor = graph.successor := funext same.nextFrom
  constructor
  · constructor
    · intro node inside
      obtain ⟨cells, threads, nodup, members⟩ := sound.lists node inside
      refine ⟨cells, ?_, nodup, fun edge => ?_⟩
      · rw [Adjacency, successors, same.nodes]
        exact threads
      · rw [members edge, edges, same.fromNode]
    · intro edge inside active
      rw [same.fromNode, nodes]
      exact sound.source edge inside (edges ▸ active)
    · intro edge inside active
      rw [same.toNode, nodes]
      exact sound.target edge inside (edges ▸ active)
    · rw [same.nodeCount, nodes, sound.nodeCount]
    · rw [same.edgeCount, edges, sound.edgeCount]
    · rw [same.nodes]
      exact sound.ids
  · intro edge inside active
    exact sound.below edge inside (edges ▸ active)

theorem adjustWeights_shape (fromIdx toIdx : Nat) (change : Nat → Nat) :
    SameShape graph (graph.adjustWeights fromIdx toIdx change) :=
  ⟨rfl, fun _ => rfl, fun _ => rfl, fun _ => rfl, fun _ => rfl, rfl, rfl⟩

theorem setWeight_shape (idx weight fromIdx toIdx : Nat) (change : Nat → Nat) :
    SameShape graph ((graph.setEdge idx ⟨(graph.edges idx).fromNode, (graph.edges idx).toNode,
      weight, (graph.edges idx).nextFrom, (graph.edges idx).active⟩).adjustWeights
        fromIdx toIdx change) := by
  have field : ∀ {α : Type} (get : Edge → α),
      (∀ edge : Edge, get { edge with weight := weight } = get edge) → ∀ edge,
      get (update graph.edges idx { graph.edges idx with weight := weight } edge) =
        get (graph.edges edge) := by
    intro α get keeps edge
    by_cases here : edge = idx
    · rw [here, update_self, keeps]
    · rw [update_of_ne here]
  exact ⟨rfl, field _ fun _ => rfl, field _ fun _ => rfl, field _ fun _ => rfl,
    field _ fun _ => rfl, rfl, rfl⟩

/-! ### Adding -/

theorem addNode_cases (added : graph.addNode maxNodes id = .ok (i, next)) :
    graph.findNode maxNodes id = none ∧ i < maxNodes ∧ (graph.nodes i).partition = none ∧
      next.nodes = update graph.nodes i ⟨some id, invalid⟩ ∧ next.edges = graph.edges ∧
      next.nodeCount = graph.nodeCount + 1 ∧ next.edgeCount = graph.edgeCount := by
  unfold addNode at added
  split at added
  · cases added
  · rename_i absent
    split at added
    · rename_i slot free
      cases added
      exact ⟨by simpa using absent, mem_range.mp (mem_of_find?_eq_some free),
        by simpa using List.find?_some free, rfl, rfl, rfl, rfl⟩
    · cases added

theorem Sound.addNode (sound : Sound maxNodes maxEdges graph)
    (added : graph.addNode maxNodes id = .ok (i, next)) : Sound maxNodes maxEdges next := by
  obtain ⟨absent, inside, free, nodes, edges, nodeCount, edgeCount⟩ := addNode_cases added
  have freeNode : graph.nodeActive i = false := by rw [nodeActive, free]; rfl
  have others : ∀ node, node ≠ i → next.nodes node = graph.nodes node := fun node apart => by
    rw [nodes, update_of_ne apart]
  have placed : next.nodes i = ⟨some id, invalid⟩ := by rw [nodes, update_self]
  have kept : ∀ node, graph.nodeActive node = true → next.nodeActive node = true := by
    intro node active
    have apart : node ≠ i := fun same => by rw [same, freeNode] at active; cases active
    rwa [nodeActive, others node apart]
  have active : next.edgeActive = graph.edgeActive := by unfold edgeActive; rw [edges]
  have successors : next.successor = graph.successor := by unfold successor; rw [edges]
  constructor
  · constructor
    · intro node below
      by_cases same : node = i
      · subst same
        refine ⟨[], by rw [Adjacency, placed]; rfl, nodup_nil, fun edge => ?_⟩
        refine iff_of_false not_mem_nil fun ⟨slot, edgeIsActive, starts⟩ => ?_
        rw [active] at edgeIsActive
        have sourceActive := (sound.source edge slot edgeIsActive).2
        rw [← edges, starts, freeNode] at sourceActive
        cases sourceActive
      · obtain ⟨cells, threads, nodup, members⟩ := sound.lists node below
        refine ⟨cells, ?_, nodup, fun edge => ?_⟩
        · rw [Adjacency, successors, others node same]
          exact threads
        · rw [members edge, active, edges]
    · intro edge slot edgeIsActive
      obtain ⟨bound, sourceActive⟩ := sound.source edge slot (active ▸ edgeIsActive)
      rw [edges]
      exact ⟨bound, kept _ sourceActive⟩
    · intro edge slot edgeIsActive
      obtain ⟨bound, targetActive⟩ := sound.target edge slot (active ▸ edgeIsActive)
      rw [edges]
      exact ⟨bound, kept _ targetActive⟩
    · rw [nodeCount, sound.nodeCount]
      symm
      apply occupied_fill inside freeNode
      · rw [nodeActive, placed]
        rfl
      · intro node apart
        rw [nodeActive, others node apart, nodeActive]
    · rw [edgeCount, active, sound.edgeCount]
    · intro first second other firstInside secondInside firstIs secondIs
      by_cases atFirst : first = i <;> by_cases atSecond : second = i
      · rw [atFirst, atSecond]
      · rw [atFirst, placed] at firstIs
        rw [others second atSecond, ← firstIs] at secondIs
        exact absurd secondIs (sound.findNode_none absent secondInside)
      · rw [atSecond, placed] at secondIs
        rw [others first atFirst, ← secondIs] at firstIs
        exact absurd firstIs (sound.findNode_none absent firstInside)
      · rw [others first atFirst] at firstIs
        rw [others second atSecond] at secondIs
        exact sound.ids first second other firstInside secondInside firstIs secondIs
  · intro edge slot edgeIsActive
    exact sound.below edge slot (active ▸ edgeIsActive)

/-- One edge more, at the head of its source's list, and nothing else that the
invariant speaks of. -/
structure Linked (graph next : CoherenceGraph) (slot fromIdx toIdx : Nat) : Prop where
  partitions : ∀ node, (next.nodes node).partition = (graph.nodes node).partition
  first : (next.nodes fromIdx).firstEdge = slot
  otherFirst : ∀ node, node ≠ fromIdx →
    (next.nodes node).firstEdge = (graph.nodes node).firstEdge
  active : next.edgeActive slot = true
  fromNode : (next.edges slot).fromNode = fromIdx
  toNode : (next.edges slot).toNode = toIdx
  successor : next.successor =
    update graph.successor slot (graph.nodes fromIdx).firstEdge
  others : ∀ edge, edge ≠ slot → next.edges edge = graph.edges edge
  nodeCount : next.nodeCount = graph.nodeCount
  edgeCount : next.edgeCount = asU16 (graph.edgeCount + 1)

theorem linkEdge_linked (slot fromIdx toIdx weight : Nat) :
    Linked graph (graph.linkEdge slot fromIdx toIdx weight) slot fromIdx toIdx := by
  let edge : Edge := ⟨fromIdx, toIdx, weight, (graph.nodes fromIdx).firstEdge, true⟩
  let node : Node := { graph.nodes fromIdx with firstEdge := slot }
  have edges : (graph.linkEdge slot fromIdx toIdx weight).edges =
      update graph.edges slot edge := rfl
  have nodes : (graph.linkEdge slot fromIdx toIdx weight).nodes =
      update graph.nodes fromIdx node := rfl
  have linked : (graph.linkEdge slot fromIdx toIdx weight).edges slot = edge := by
    rw [edges, update_self]
  refine ⟨fun other => ?_, ?_, fun other apart => ?_, ?_, ?_, ?_, funext fun other => ?_,
    fun other apart => ?_, rfl, rfl⟩
  · rw [nodes]
    by_cases same : other = fromIdx
    · rw [same, update_self]
    · rw [update_of_ne same]
  · rw [nodes, update_self]
  · rw [nodes, update_of_ne apart]
  · rw [edgeActive, linked]
  · rw [linked]
  · rw [linked]
  · rw [successor, edges]
    by_cases same : other = slot
    · rw [same, update_self, update_self]
    · rw [update_of_ne same, update_of_ne same, successor]
  · rw [edges, update_of_ne apart]

section Link

variable {slot fromIdx toIdx : Nat}

theorem Linked.nodeActive (linked : Linked graph next slot fromIdx toIdx) :
    next.nodeActive = graph.nodeActive := by
  funext node
  rw [CoherenceGraph.nodeActive, linked.partitions, CoherenceGraph.nodeActive]

theorem Linked.otherActive (linked : Linked graph next slot fromIdx toIdx) {edge : Nat}
    (apart : edge ≠ slot) : next.edgeActive edge = graph.edgeActive edge := by
  rw [edgeActive, linked.others edge apart, edgeActive]

theorem Linked.active_cases (linked : Linked graph next slot fromIdx toIdx) {edge : Nat}
    (active : next.edgeActive edge = true) :
    edge = slot ∨ edge ≠ slot ∧ graph.edgeActive edge = true := by
  by_cases same : edge = slot
  · exact .inl same
  · exact .inr ⟨same, linked.otherActive same ▸ active⟩

theorem Linked.list (linked : Linked graph next slot fromIdx toIdx) (inside : slot < maxEdges)
    (free : graph.edgeActive slot = false) (small : slot < invalid) {node : Nat}
    {cells : List Nat} (threads : graph.Adjacency node cells) (nodup : cells.Nodup)
    (members : ∀ edge, edge ∈ cells ↔ edge < maxEdges ∧ graph.edgeActive edge = true ∧
      (graph.edges edge).fromNode = node) :
    ∃ after, next.Adjacency node after ∧ after.Nodup ∧ ∀ edge, edge ∈ after ↔
      edge < maxEdges ∧ next.edgeActive edge = true ∧ (next.edges edge).fromNode = node := by
  have fresh : slot ∉ cells := by
    intro member
    have active := ((members slot).mp member).2.1
    rw [free] at active
    cases active
  by_cases same : node = fromIdx
  · subst same
    refine ⟨slot :: cells, ?_, nodup_cons.mpr ⟨fresh, nodup⟩, fun edge => ?_⟩
    · rw [Adjacency, linked.successor, linked.first]
      exact threads.push (Nat.ne_of_lt small) fresh
    · rw [mem_cons]
      by_cases atSlot : edge = slot
      · rw [atSlot]
        exact iff_of_true (.inl rfl) ⟨inside, linked.active, linked.fromNode⟩
      · rw [linked.otherActive atSlot, linked.others edge atSlot, ← members edge]
        exact ⟨fun either => either.resolve_left atSlot, .inr⟩
  · refine ⟨cells, ?_, nodup, fun edge => ?_⟩
    · rw [Adjacency, linked.successor, linked.otherFirst node same]
      exact threads.update _ fresh
    · by_cases atSlot : edge = slot
      · rw [atSlot]
        exact iff_of_false fresh fun held => same (held.2.2.symm.trans linked.fromNode)
      · rw [linked.otherActive atSlot, linked.others edge atSlot, members edge]

theorem Sound.link (sound : Sound maxNodes maxEdges graph)
    (linked : Linked graph next slot fromIdx toIdx) (inside : slot < maxEdges)
    (free : graph.edgeActive slot = false) (small : slot < invalid) (fromInside : fromIdx < maxNodes)
    (fromActive : graph.nodeActive fromIdx = true) (toInside : toIdx < maxNodes)
    (toActive : graph.nodeActive toIdx = true) : Sound maxNodes maxEdges next := by
  have below : ∀ edge, edge < maxEdges → next.edgeActive edge = true → edge < invalid := by
    intro edge edgeInside active
    rcases linked.active_cases active with rfl | ⟨_, before⟩
    · exact small
    · exact sound.below edge edgeInside before
  constructor
  · constructor
    · intro node nodeInside
      obtain ⟨cells, threads, nodup, members⟩ := sound.lists node nodeInside
      exact linked.list inside free small threads nodup members
    · intro edge edgeInside active
      rw [linked.nodeActive]
      rcases linked.active_cases active with rfl | ⟨apart, before⟩
      · rw [linked.fromNode]
        exact ⟨fromInside, fromActive⟩
      · rw [linked.others edge apart]
        exact sound.source edge edgeInside before
    · intro edge edgeInside active
      rw [linked.nodeActive]
      rcases linked.active_cases active with rfl | ⟨apart, before⟩
      · rw [linked.toNode]
        exact ⟨toInside, toActive⟩
      · rw [linked.others edge apart]
        exact sound.target edge edgeInside before
    · rw [linked.nodeCount, linked.nodeActive, sound.nodeCount]
    · have counted : occupied maxEdges next.edgeActive = occupied maxEdges graph.edgeActive + 1 :=
        occupied_fill inside free linked.active fun edge apart => linked.otherActive apart
      have fits : occupied maxEdges next.edgeActive ≤ invalid := occupied_le_of_below below
      rw [linked.edgeCount, sound.edgeCount, ← counted]
      exact Nat.mod_eq_of_lt (Nat.lt_succ_of_le fits)
    · intro i j other iInside jInside
      rw [linked.partitions, linked.partitions]
      exact sound.ids i j other iInside jInside
  · exact below

end Link

/-! ### Removing -/

def Holds (maxEdges : Nat) (graph : CoherenceGraph) (node : Nat) (cells : List Nat) : Prop :=
  ∀ edge, edge ∈ cells ↔
    edge < maxEdges ∧ graph.edgeActive edge = true ∧ (graph.edges edge).fromNode = node

/-- One edge fewer, and nothing else that the invariant speaks of. -/
structure Dropped (graph next : CoherenceGraph) (gone : Nat) : Prop where
  partitions : ∀ node, (next.nodes node).partition = (graph.nodes node).partition
  fromNode : ∀ edge, (next.edges edge).fromNode = (graph.edges edge).fromNode
  toNode : ∀ edge, (next.edges edge).toNode = (graph.edges edge).toNode
  active : ∀ edge, next.edgeActive edge = true ↔ graph.edgeActive edge = true ∧ edge ≠ gone
  nodeCount : next.nodeCount = graph.nodeCount
  edgeCount : next.edgeCount = graph.edgeCount - 1

theorem Dropped.nodeActive (dropped : Dropped graph next gone) :
    next.nodeActive = graph.nodeActive := by
  funext node
  rw [CoherenceGraph.nodeActive, dropped.partitions, CoherenceGraph.nodeActive]

theorem Sound.drop (sound : Sound maxNodes maxEdges graph) (inside : gone < maxEdges)
    (active : graph.edgeActive gone = true) (dropped : Dropped graph next gone)
    (relinked : ∀ node cells, graph.Adjacency node cells → Holds maxEdges graph node cells →
      next.Adjacency node (cells.erase gone)) : Sound maxNodes maxEdges next := by
  constructor
  · constructor
    · intro node nodeInside
      obtain ⟨cells, threads, nodup, members⟩ := sound.lists node nodeInside
      refine ⟨cells.erase gone, relinked node cells threads members, nodup.erase gone, fun edge => ?_⟩
      rw [nodup.mem_erase_iff, members edge, dropped.active, dropped.fromNode]
      tauto
    · intro edge edgeInside edgeIsActive
      rw [dropped.fromNode, dropped.nodeActive]
      exact sound.source edge edgeInside ((dropped.active edge).mp edgeIsActive).1
    · intro edge edgeInside edgeIsActive
      rw [dropped.toNode, dropped.nodeActive]
      exact sound.target edge edgeInside ((dropped.active edge).mp edgeIsActive).1
    · rw [dropped.nodeCount, dropped.nodeActive, sound.nodeCount]
    · have counted : occupied maxEdges next.edgeActive + 1 = occupied maxEdges graph.edgeActive := by
        apply occupied_clear inside active
        · rw [Bool.eq_false_iff]
          intro still
          exact ((dropped.active gone).mp still).2 rfl
        · intro edge apart
          rw [Bool.eq_iff_iff, dropped.active]
          exact and_iff_left apart
      rw [dropped.edgeCount, sound.edgeCount]
      omega
    · intro i j id iInside jInside
      rw [dropped.partitions, dropped.partitions]
      exact sound.ids i j id iInside jInside
  · intro edge edgeInside edgeIsActive
    exact sound.below edge edgeInside ((dropped.active edge).mp edgeIsActive).1

theorem skipEdge_returns {edgeIdx fuel cur : Nat} {cells : List Nat}
    (threads : Threads graph.successor invalid cur cells) (inside : ∀ edge ∈ cells, edge < maxEdges)
    (enough : cells.length ≤ fuel) (member : edgeIdx ∈ cells) (behind : cur ≠ edgeIdx) :
    ∃ before ∈ cells, graph.successor before = edgeIdx ∧
      graph.skipEdge maxEdges edgeIdx fuel cur = some (graph.setEdge before
        { graph.edges before with nextFrom := (graph.edges edgeIdx).nextFrom }) := by
  induction cells generalizing fuel cur with
  | nil => cases member
  | cons head rest ih =>
    obtain ⟨rfl, notStop, later⟩ := threads
    cases fuel with
    | zero => cases enough
    | succ fuel =>
      have slot := inside cur mem_cons_self
      rw [skipEdge, if_neg notStop, if_neg (Nat.not_le.mpr slot)]
      by_cases found : (graph.edges cur).nextFrom = edgeIdx
      · rw [if_pos found]
        exact ⟨cur, mem_cons_self, found, rfl⟩
      · rw [if_neg found]
        obtain ⟨before, earlier, goes, walked⟩ := ih later
          (fun edge inRest => inside edge (mem_cons_of_mem cur inRest))
          (Nat.le_of_succ_le_succ enough)
          ((mem_cons.mp member).resolve_left (Ne.symm behind)) found
        exact ⟨before, mem_cons_of_mem cur earlier, goes, walked⟩

theorem releaseEdge_active {edgeIdx : Nat} (edge : Nat)
    (same : ∀ edge, next.edgeActive edge = graph.edgeActive edge) :
    (next.releaseEdge edgeIdx).edgeActive edge = true ↔
      graph.edgeActive edge = true ∧ edge ≠ edgeIdx := by
  change (update next.edges edgeIdx
    { next.edges edgeIdx with active := false } edge).active = true ↔ _
  by_cases here : edge = edgeIdx
  · rw [here, update_self]
    simp
  · rw [update_of_ne here, ← same edge]
    exact (and_iff_left here).symm

theorem releaseEdge_field {α : Type} (get : Edge → α)
    (keeps : ∀ edge : Edge, get { edge with active := false } = get edge) (edgeIdx edge : Nat) :
    get ((graph.releaseEdge edgeIdx).edges edge) = get (graph.edges edge) := by
  change get (update graph.edges edgeIdx
    { graph.edges edgeIdx with active := false } edge) = _
  by_cases here : edge = edgeIdx
  · rw [here, update_self, keeps]
  · rw [update_of_ne here]

theorem Sound.dropFirst (sound : Sound maxNodes maxEdges graph) (inside : gone < maxEdges)
    (active : graph.edgeActive gone = true)
    (first : (graph.nodes (graph.edges gone).fromNode).firstEdge = gone) :
    let unlinked := graph.setFirstEdge (graph.edges gone).fromNode (graph.edges gone).nextFrom
    Dropped graph (unlinked.releaseEdge gone) gone ∧
      Sound maxNodes maxEdges (unlinked.releaseEdge gone) := by
  intro unlinked
  have nodes : (unlinked.releaseEdge gone).nodes = update graph.nodes
      (graph.edges gone).fromNode { graph.nodes (graph.edges gone).fromNode with
        firstEdge := (graph.edges gone).nextFrom } := rfl
  have dropped : Dropped graph (unlinked.releaseEdge gone) gone := by
    refine ⟨fun node => ?_, releaseEdge_field fromNode (fun _ => rfl) gone,
      releaseEdge_field toNode (fun _ => rfl) gone,
      fun edge => releaseEdge_active edge fun _ => rfl, rfl, rfl⟩
    rw [nodes]
    by_cases same : node = (graph.edges gone).fromNode
    · rw [same, update_self]
    · rw [update_of_ne same]
  have successors : (unlinked.releaseEdge gone).successor = graph.successor :=
    funext (releaseEdge_field nextFrom (fun _ => rfl) gone)
  refine ⟨dropped, sound.drop inside active dropped fun node cells threads members => ?_⟩
  rw [Adjacency, successors, nodes]
  by_cases same : node = (graph.edges gone).fromNode
  · rw [same, update_self]
    rw [Adjacency, same, first] at threads
    cases cells with
    | nil => exact absurd threads (Nat.ne_of_lt (sound.below gone inside active))
    | cons head rest =>
      obtain ⟨rfl, _, later⟩ := threads
      rw [erase_cons_head]
      exact later
  · have elsewhere : gone ∉ cells := fun member => same ((members gone).mp member).2.2.symm
    rw [update_of_ne same, erase_of_not_mem elsewhere]
    exact threads

theorem Sound.dropBehind (sound : Sound maxNodes maxEdges graph) {before : Nat} {cells : List Nat}
    (inside : gone < maxEdges) (active : graph.edgeActive gone = true)
    (holds : Holds maxEdges graph (graph.edges gone).fromNode cells) (earlier : before ∈ cells)
    (goes : graph.successor before = gone) :
    let unlinked := graph.setEdge before
      { graph.edges before with nextFrom := (graph.edges gone).nextFrom }
    Dropped graph (unlinked.releaseEdge gone) gone ∧
      Sound maxNodes maxEdges (unlinked.releaseEdge gone) := by
  intro unlinked
  have field : ∀ {α : Type} (get : Edge → α), (∀ edge nextFrom,
      get { edge with nextFrom := nextFrom } = get edge) → ∀ edge,
      get (unlinked.edges edge) = get (graph.edges edge) := by
    intro α get keeps edge
    change get (update graph.edges before _ edge) = _
    by_cases here : edge = before
    · rw [here, update_self, keeps]
    · rw [update_of_ne here]
  have dropped : Dropped graph (unlinked.releaseEdge gone) gone :=
    ⟨fun _ => rfl,
      fun edge => (releaseEdge_field fromNode (fun _ => rfl) gone edge).trans
        (field fromNode (fun _ _ => rfl) edge),
      fun edge => (releaseEdge_field toNode (fun _ => rfl) gone edge).trans
        (field Edge.toNode (fun _ _ => rfl) edge),
      fun edge => releaseEdge_active edge (field Edge.active fun _ _ => rfl), rfl, rfl⟩
  have successors : (unlinked.releaseEdge gone).successor =
      update graph.successor before (graph.successor gone) := by
    funext edge
    refine (releaseEdge_field nextFrom (fun _ => rfl) gone edge).trans ?_
    change (update graph.edges before _ edge).nextFrom = _
    by_cases here : edge = before
    · rw [here, update_self, update_self]
      rfl
    · rw [update_of_ne here, update_of_ne here]
      rfl
  refine ⟨dropped, sound.drop inside active dropped fun node others threads members => ?_⟩
  change Threads (unlinked.releaseEdge gone).successor invalid (graph.nodes node).firstEdge _
  rw [successors]
  by_cases same : node = (graph.edges gone).fromNode
  · have beforeHere : before ∈ others :=
      (members before).mpr (same ▸ (holds before).mp earlier)
    exact threads.skip beforeHere goes (Nat.ne_of_lt (sound.below gone inside active))
  · have beforeElsewhere : before ∉ others := fun member =>
      same (((members before).mp member).2.2.symm.trans ((holds before).mp earlier).2.2)
    have goneElsewhere : gone ∉ others := fun member => same ((members gone).mp member).2.2.symm
    rw [erase_of_not_mem goneElsewhere]
    exact threads.update _ beforeElsewhere

theorem Sound.unlinkEdge (sound : Sound maxNodes maxEdges graph) (inside : gone < maxEdges)
    (active : graph.edgeActive gone = true) :
    ∃ unlinked, graph.unlinkEdge maxEdges gone = some unlinked ∧
      Dropped graph (unlinked.releaseEdge gone) gone ∧
      Sound maxNodes maxEdges (unlinked.releaseEdge gone) := by
  unfold CoherenceGraph.unlinkEdge
  by_cases first : (graph.nodes (graph.edges gone).fromNode).firstEdge = gone
  · rw [if_pos first]
    exact ⟨_, rfl, sound.dropFirst inside active first⟩
  · rw [if_neg first]
    obtain ⟨cells, threads, bound, members⟩ := sound.list (sound.source gone inside active).1
    have slots : ∀ edge ∈ cells, edge < maxEdges := fun edge member => ((members edge).mp member).1
    obtain ⟨before, earlier, goes, walked⟩ := skipEdge_returns threads slots (Nat.le_succ_of_le bound)
      ((members gone).mpr ⟨inside, active, rfl⟩) first
    exact ⟨_, walked, sound.dropBehind inside active members earlier goes⟩

theorem Sound.removeEdgeByIndex (sound : Sound maxNodes maxEdges graph) (inside : gone < maxEdges)
    (active : graph.edgeActive gone = true) :
    ∃ next, graph.removeEdgeByIndex maxEdges (asU16 gone) = some next ∧
      Dropped graph next gone ∧ Sound maxNodes maxEdges next := by
  have small := sound.below gone inside active
  have index : asU16 gone = gone := Nat.mod_eq_of_lt (Nat.lt_succ_of_lt small)
  let edge := graph.edges gone
  have shape : SameShape graph (graph.adjustWeights edge.fromNode edge.toNode fun sum =>
      sum - edge.weight) := adjustWeights_shape _ _ _
  obtain ⟨unlinked, walked, dropped, after⟩ := (shape.sound sound).unlinkEdge inside active
  refine ⟨unlinked.releaseEdge gone, ?_, ⟨dropped.partitions, dropped.fromNode, dropped.toNode,
    dropped.active, dropped.nodeCount, dropped.edgeCount⟩, after⟩
  have present : ¬(gone ≥ maxEdges ∨ (graph.edges gone).active = false) := by
    rintro (outside | inactive)
    · omega
    · exact absurd active (by rw [edgeActive, inactive]; decide)
  rw [index, CoherenceGraph.removeEdgeByIndex, if_neg present, walked]
  rfl

/-- What the sweep of a removal keeps of the graph it started from. -/
structure Stripped (maxNodes maxEdges idx : Nat) (graph : CoherenceGraph) (swept : Nat)
    (here : CoherenceGraph) : Prop where
  sound : Sound maxNodes maxEdges here
  partitions : ∀ node, (here.nodes node).partition = (graph.nodes node).partition
  isolated : ∀ edge, edge < swept → here.edgeActive edge = true →
    (here.edges edge).fromNode ≠ idx ∧ (here.edges edge).toNode ≠ idx

theorem Stripped.visit {idx edge : Nat} {here : CoherenceGraph}
    (stripped : Stripped maxNodes maxEdges idx graph edge here) (inside : edge < maxEdges) :
    ∃ next, here.removeIncident maxEdges idx edge = some next ∧
      Stripped maxNodes maxEdges idx graph (edge + 1) next := by
  unfold removeIncident
  by_cases incident : (here.edges edge).active = true ∧
      ((here.edges edge).fromNode = idx ∨ (here.edges edge).toNode = idx)
  · rw [if_pos incident]
    obtain ⟨next, removed, dropped, after⟩ := stripped.sound.removeEdgeByIndex inside incident.1
    refine ⟨next, removed, after, fun node => ?_, fun other below active => ?_⟩
    · rw [dropped.partitions, stripped.partitions]
    · obtain ⟨before, apart⟩ := (dropped.active other).mp active
      rw [dropped.fromNode, dropped.toNode]
      exact stripped.isolated other (by omega) before
  · rw [if_neg incident]
    refine ⟨here, rfl, stripped.sound, stripped.partitions, fun other below active => ?_⟩
    rcases Nat.lt_succ_iff_lt_or_eq.mp below with earlier | rfl
    · exact stripped.isolated other earlier active
    · constructor
      · exact fun starts => incident ⟨active, .inl starts⟩
      · exact fun ends => incident ⟨active, .inr ends⟩

theorem Sound.clearNode (sound : Sound maxNodes maxEdges graph) {idx : Nat}
    (inside : idx < maxNodes) (held : graph.nodeActive idx = true)
    (isolated : ∀ edge, edge < maxEdges → graph.edgeActive edge = true →
      (graph.edges edge).fromNode ≠ idx ∧ (graph.edges edge).toNode ≠ idx) :
    Sound maxNodes maxEdges (graph.clearNode id idx) := by
  have nodes : (graph.clearNode id idx).nodes = update graph.nodes idx .empty := rfl
  have edges : (graph.clearNode id idx).edges = graph.edges := rfl
  have nodeCount : (graph.clearNode id idx).nodeCount = graph.nodeCount - 1 := rfl
  have edgeCount : (graph.clearNode id idx).edgeCount = graph.edgeCount := rfl
  generalize graph.clearNode id idx = next at nodes edges nodeCount edgeCount ⊢
  have others : ∀ node, node ≠ idx → next.nodes node = graph.nodes node := fun node apart => by
    rw [nodes, update_of_ne apart]
  have cleared : next.nodes idx = .empty := by rw [nodes, update_self]
  have active : next.edgeActive = graph.edgeActive := by unfold edgeActive; rw [edges]
  have successors : next.successor = graph.successor := by unfold successor; rw [edges]
  have present : ∀ {i id}, (next.nodes i).partition = some id →
      (graph.nodes i).partition = some id := by
    intro i id isSome
    by_cases same : i = idx
    · rw [same, cleared] at isSome
      cases isSome
    · rwa [others i same] at isSome
  constructor
  · constructor
    · intro node below
      by_cases same : node = idx
      · subst same
        refine ⟨[], by rw [Adjacency, cleared]; rfl, nodup_nil, fun edge => ?_⟩
        refine iff_of_false not_mem_nil fun ⟨slot, edgeIsActive, starts⟩ => ?_
        rw [edges] at starts
        exact (isolated edge slot (active ▸ edgeIsActive)).1 starts
      · obtain ⟨cells, threads, nodup, members⟩ := sound.lists node below
        refine ⟨cells, ?_, nodup, fun edge => ?_⟩
        · rw [Adjacency, successors, others node same]
          exact threads
        · rw [members edge, active, edges]
    · intro edge slot edgeIsActive
      rw [active] at edgeIsActive
      rw [edges, nodeActive, others _ (isolated edge slot edgeIsActive).1]
      exact sound.source edge slot edgeIsActive
    · intro edge slot edgeIsActive
      rw [active] at edgeIsActive
      rw [edges, nodeActive, others _ (isolated edge slot edgeIsActive).2]
      exact sound.target edge slot edgeIsActive
    · have counted : occupied maxNodes next.nodeActive + 1 = occupied maxNodes graph.nodeActive := by
        apply occupied_clear inside held
        · rw [nodeActive, cleared]
          rfl
        · intro node apart
          rw [nodeActive, others node apart, nodeActive]
      rw [nodeCount, sound.nodeCount]
      omega
    · rw [edgeCount, active, sound.edgeCount]
    · intro i j id iInside jInside iIs jIs
      exact sound.ids i j id iInside jInside (present iIs) (present jIs)
  · intro edge slot edgeIsActive
    exact sound.below edge slot (active ▸ edgeIsActive)

theorem Sound.removeNode (sound : Sound maxNodes maxEdges graph) (id : PartitionId) :
    graph.findNode maxNodes id = none ∧
        graph.removeNode maxNodes maxEdges id = some (.error .nodeNotFound) ∨
      ∃ idx next, graph.findNode maxNodes id = some idx ∧
        graph.removeNode maxNodes maxEdges id = some (.ok next) ∧ Sound maxNodes maxEdges next ∧
        (next.nodes idx).partition = none ∧
        ∀ node, node ≠ idx → (next.nodes node).partition = (graph.nodes node).partition := by
  unfold CoherenceGraph.removeNode
  cases found : graph.findNode maxNodes id with
  | none => exact .inl ⟨rfl, rfl⟩
  | some idx =>
    obtain ⟨inside, here⟩ := sound.findNode_some found
    have start : Stripped maxNodes maxEdges idx graph 0 graph :=
      ⟨sound, fun _ => rfl, fun _ below => absurd below (Nat.not_lt_zero _)⟩
    obtain ⟨stripped, swept, after⟩ := sweep_returns start
      fun edge current below stripped => stripped.visit below
    have held : stripped.nodeActive idx = true := by
      rw [nodeActive, after.partitions, here]
      rfl
    refine .inr ⟨idx, stripped.clearNode id idx, rfl, congrArg (Option.map _) swept,
      after.sound.clearNode inside held after.isolated, ?_, fun node apart => ?_⟩
    · change (update stripped.nodes idx .empty idx).partition = none
      rw [update_self]
      rfl
    · change (update stripped.nodes idx .empty node).partition = _
      rw [update_of_ne apart, after.partitions]

/-! ### Weights -/

theorem Sound.updateWeight (sound : Sound maxNodes maxEdges graph) {edgeId : Nat} {delta : Int}
    (updated : graph.updateWeight maxEdges edgeId delta = .ok next) :
    SameShape graph next ∧ Sound maxNodes maxEdges next := by
  unfold CoherenceGraph.updateWeight at updated
  dsimp only at updated
  by_cases missing : edgeId ≥ maxEdges ∨ (graph.edges edgeId).active = false
  · rw [if_pos missing] at updated
    cases updated
  · rw [if_neg missing] at updated
    obtain rfl := Except.ok.inj updated
    exact ⟨setWeight_shape edgeId _ _ _ _, (setWeight_shape edgeId _ _ _ _).sound sound⟩

theorem Sound.decayEdge (sound : Sound maxNodes maxEdges graph) (decayBp pruned : Nat) {edge : Nat}
    (inside : edge < maxEdges) :
    ∃ next, decayEdge maxEdges decayBp (graph, pruned) edge = some next ∧
      Sound maxNodes maxEdges next.1 ∧
      ∀ node, (next.1.nodes node).partition = (graph.nodes node).partition := by
  unfold CoherenceGraph.decayEdge
  dsimp only
  by_cases inactive : (graph.edges edge).active = false
  · rw [if_pos inactive]
    exact ⟨_, rfl, sound, fun _ => rfl⟩
  · rw [if_neg inactive]
    by_cases vanishes : min ((graph.edges edge).weight * (10000 - decayBp)) u64Max / 10000 = 0
    · rw [if_pos vanishes]
      obtain ⟨next, removed, dropped, after⟩ :=
        sound.removeEdgeByIndex inside (by simpa [edgeActive] using inactive)
      exact ⟨(next, asU16 (pruned + 1)), by rw [removed]; rfl, after, dropped.partitions⟩
    · rw [if_neg vanishes]
      refine ⟨_, rfl, ?_, fun _ => rfl⟩
      dsimp only
      exact (setWeight_shape edge _ _ _ _).sound sound

theorem Sound.decayWeights (sound : Sound maxNodes maxEdges graph) (decayBp : Nat) :
    ∃ result, graph.decayWeights maxEdges decayBp = some result ∧
      Sound maxNodes maxEdges result.1 ∧
      ∀ node, (result.1.nodes node).partition = (graph.nodes node).partition := by
  have swept := @sweep_returns (CoherenceGraph × Nat) maxEdges
    (fun _ here => Sound maxNodes maxEdges here.1 ∧
      ∀ node, (here.1.nodes node).partition = (graph.nodes node).partition)
    (graph, 0) (CoherenceGraph.decayEdge maxEdges decayBp) ⟨sound, fun _ => rfl⟩
  apply swept
  rintro edge ⟨here, pruned⟩ inside ⟨hereSound, partitions⟩
  obtain ⟨next, decayed, after, kept⟩ := hereSound.decayEdge decayBp pruned inside
  exact ⟨next, decayed, after, fun node => (kept node).trans (partitions node)⟩

end CoherenceGraph

end Rvm.Coherence
