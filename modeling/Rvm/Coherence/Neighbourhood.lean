import Rvm.Coherence.GraphRuns
import Rvm.Coherence.MinCut

/-!
Owns what the minimum cut collects on a sound graph: the walk returns, the nodes
are distinct and hold the listed partitions, at most the capacity is collected,
and a graph within the capacity has its whole neighbourhood collected.
-/

namespace Rvm.Coherence

open Foundation List

namespace CoherenceGraph

variable {maxNodes maxEdges : Nat} {graph : CoherenceGraph} {known more : Nat → Prop}
  {subNodes : List (Nat × PartitionId)}

def Joins (graph : CoherenceGraph) (edge : Nat) (a b : PartitionId) : Prop :=
  (graph.nodes (graph.edges edge).fromNode).partition = some a ∧
    (graph.nodes (graph.edges edge).toNode).partition = some b

def Nearby (maxEdges : Nat) (graph : CoherenceGraph) (id pid : PartitionId) : Prop :=
  pid = id ∨ ∃ edge, edge < maxEdges ∧ graph.edgeActive edge = true ∧
    (graph.Joins edge id pid ∨ graph.Joins edge pid id)

def NearbyNode (maxNodes maxEdges : Nat) (graph : CoherenceGraph) (id : PartitionId) (i : Nat) :
    Prop :=
  ∃ pid, graph.partitionAt maxNodes i = some pid ∧ graph.Nearby maxEdges id pid

theorem partitionAt_eq_some {i : Nat} {pid : PartitionId} :
    graph.partitionAt maxNodes i = some pid ↔
      i < maxNodes ∧ (graph.nodes i).partition = some pid := by
  unfold partitionAt
  split
  · rename_i inside
    exact (and_iff_right inside).symm
  · rename_i outside
    exact iff_of_false (fun held => by cases held) fun held => outside held.1

structure Collected (maxNodes : Nat) (graph : CoherenceGraph) (known : Nat → Prop)
    (subNodes : List (Nat × PartitionId)) : Prop where
  distinct : (subNodes.map Prod.fst).Nodup
  placed : ∀ node ∈ subNodes, node.1 < maxNodes ∧ (graph.nodes node.1).partition = some node.2
  small : subNodes.length ≤ mincutMaxNodes
  only : ∀ node ∈ subNodes, known node.1
  all : maxNodes ≤ mincutMaxNodes → ∀ i, known i → i ∈ subNodes.map Prod.fst

theorem Collected.congr (collected : Collected maxNodes graph known subNodes)
    (same : ∀ i, known i ↔ more i) : Collected maxNodes graph more subNodes where
  distinct := collected.distinct
  placed := collected.placed
  small := collected.small
  only node member := (same node.1).mp (collected.only node member)
  all within i held := collected.all within i ((same i).mpr held)

theorem Collected.full (collected : Collected maxNodes graph known subNodes)
    (full : mincutMaxNodes ≤ subNodes.length) (inside : ∀ i, more i → i < maxNodes) :
    Collected maxNodes graph (fun i => known i ∨ more i) subNodes where
  distinct := collected.distinct
  placed := collected.placed
  small := collected.small
  only node member := .inl (collected.only node member)
  all within i := by
    rintro (held | held)
    · exact collected.all within i held
    · have bounded : (subNodes.map Prod.fst).toFinset ⊆ Finset.range maxNodes := by
        intro idx member
        obtain ⟨node, listed, rfl⟩ := mem_map.mp (mem_toFinset.mp member)
        exact Finset.mem_range.mpr (collected.placed node listed).1
      have whole : (subNodes.map Prod.fst).toFinset = Finset.range maxNodes := by
        refine Finset.eq_of_subset_of_card_le bounded ?_
        rw [Finset.card_range, toFinset_card_of_nodup collected.distinct, length_map]
        exact within.trans full
      exact mem_toFinset.mp (whole ▸ Finset.mem_range.mpr (inside i held))

theorem Collected.addSubNode (collected : Collected maxNodes graph known subNodes) {idx : Nat}
    (room : subNodes.length < mincutMaxNodes) (inside : idx < maxNodes)
    (active : graph.nodeActive idx = true) :
    Collected maxNodes graph (fun i => known i ∨ i = idx)
      (graph.addSubNode maxNodes subNodes idx) := by
  obtain ⟨pid, held⟩ := Option.isSome_iff_exists.mp active
  rw [CoherenceGraph.addSubNode, partitionAt, if_pos inside, held]
  dsimp only
  by_cases present : subNodes.any (fun node => node.1 = idx) = true
  · rw [if_pos present]
    have listed : idx ∈ subNodes.map Prod.fst := by
      obtain ⟨node, member, same⟩ := any_eq_true.mp present
      exact mem_map.mpr ⟨node, member, of_decide_eq_true same⟩
    refine ⟨collected.distinct, collected.placed, collected.small,
      fun node member => .inl (collected.only node member), fun within i => ?_⟩
    rintro (held | rfl)
    · exact collected.all within i held
    · exact listed
  · rw [if_neg present]
    have fresh : idx ∉ subNodes.map Prod.fst := by
      intro listed
      obtain ⟨node, member, same⟩ := mem_map.mp listed
      exact present (any_eq_true.mpr ⟨node, member, decide_eq_true same⟩)
    constructor
    · rw [map_append, map_singleton]
      exact collected.distinct.append (nodup_singleton idx)
        (disjoint_singleton.mpr fresh)
    · intro node member
      rcases mem_append.mp member with earlier | new
      · exact collected.placed node earlier
      · rw [mem_singleton.mp new]
        exact ⟨inside, held⟩
    · rw [length_append]
      exact room
    · intro node member
      rcases mem_append.mp member with earlier | new
      · exact .inl (collected.only node earlier)
      · exact .inr (congrArg Prod.fst (mem_singleton.mp new))
    · intro within i
      rw [map_append, mem_append]
      rintro (earlier | rfl)
      · exact .inl (collected.all within i earlier)
      · exact .inr mem_cons_self

theorem Collected.neighbors (sound : Sound maxNodes maxEdges graph) {cells : List Nat}
    {fuel cur : Nat} (threads : Threads graph.successor invalid cur cells)
    (inside : ∀ edge ∈ cells, edge < maxEdges ∧ graph.edgeActive edge = true)
    (enough : cells.length < fuel) (collected : Collected maxNodes graph known subNodes) :
    ∃ result, graph.collectNeighbors maxNodes maxEdges fuel cur subNodes = some result ∧
      Collected maxNodes graph
        (fun i => known i ∨ ∃ edge ∈ cells, (graph.edges edge).toNode = i) result := by
  induction cells generalizing fuel cur known subNodes with
  | nil =>
    cases fuel with
    | zero => cases enough
    | succ fuel =>
      refine ⟨subNodes, ?_, collected.congr fun i => ?_⟩
      · rw [collectNeighbors, if_pos (.inl threads)]
      · exact ⟨.inl, fun held =>
          held.resolve_right fun ⟨_, member, _⟩ => absurd member not_mem_nil⟩
  | cons head rest ih =>
    cases fuel with
    | zero => cases enough
    | succ fuel =>
      obtain ⟨rfl, notStop, later⟩ := threads
      obtain ⟨below, active⟩ := inside cur mem_cons_self
      have notEnd : ¬ (cur = invalid ∨ cur ≥ maxEdges) :=
        not_or.mpr ⟨notStop, Nat.not_le.mpr below⟩
      have isActive : ¬ (graph.edges cur).active = false := by
        rw [show (graph.edges cur).active = true from active]
        exact Bool.noConfusion
      rw [collectNeighbors, if_neg notEnd, if_neg isActive]
      by_cases full : subNodes.length ≥ mincutMaxNodes
      · rw [if_pos full]
        refine ⟨subNodes, rfl, collected.full full ?_⟩
        rintro i ⟨edge, member, rfl⟩
        exact (sound.target edge (inside edge member).1 (inside edge member).2).1
      · rw [if_neg full]
        obtain ⟨targetInside, targetActive⟩ := sound.target cur below active
        obtain ⟨result, walked, grown⟩ := ih later
          (fun edge member => inside edge (mem_cons_of_mem cur member))
          (Nat.lt_of_succ_lt_succ enough)
          (collected.addSubNode (Nat.not_le.mp full) targetInside targetActive)
        refine ⟨result, walked, grown.congr fun i => ?_⟩
        rw [or_assoc, exists_mem_cons_iff]
        exact or_congr_right (or_congr_left eq_comm)

theorem Collected.incoming (sound : Sound maxNodes maxEdges graph) {root visited : Nat}
    (within : visited ≤ maxEdges) (collected : Collected maxNodes graph known subNodes) :
    Collected maxNodes graph
      (fun i => known i ∨ ∃ edge, edge < visited ∧ graph.edgeActive edge = true ∧
        (graph.edges edge).toNode = root ∧ (graph.edges edge).fromNode = i)
      (graph.collectIncoming maxNodes visited root subNodes) := by
  induction visited with
  | zero =>
    exact collected.congr fun i =>
      ⟨.inl, fun held => held.resolve_right fun ⟨_, below, _⟩ => Nat.not_lt_zero _ below⟩
  | succ visited ih =>
    have earlier := ih (Nat.le_of_succ_le within)
    have unfolded : graph.collectIncoming maxNodes (visited + 1) root subNodes =
        let before := graph.collectIncoming maxNodes visited root subNodes
        if (graph.edges visited).active = true ∧ (graph.edges visited).toNode = root ∧
            before.length < mincutMaxNodes then
          graph.addSubNode maxNodes before (graph.edges visited).fromNode
        else before := by
      rw [collectIncoming, range_succ, foldl_append]
      rfl
    rw [unfolded]
    dsimp only
    by_cases into : (graph.edges visited).active = true ∧ (graph.edges visited).toNode = root
    · obtain ⟨sourceInside, sourceActive⟩ := sound.source visited within into.1
      have same : ∀ i, (∃ edge, edge < visited + 1 ∧ graph.edgeActive edge = true ∧
            (graph.edges edge).toNode = root ∧ (graph.edges edge).fromNode = i) ↔
          (∃ edge, edge < visited ∧ graph.edgeActive edge = true ∧
            (graph.edges edge).toNode = root ∧ (graph.edges edge).fromNode = i) ∨
          i = (graph.edges visited).fromNode := by
        intro i
        rw [Nat.exists_lt_succ_right]
        exact or_congr_right ⟨fun held => held.2.2.symm, fun here => ⟨into.1, into.2, here.symm⟩⟩
      by_cases room : (graph.collectIncoming maxNodes visited root subNodes).length <
          mincutMaxNodes
      · rw [if_pos ⟨into.1, into.2, room⟩]
        refine (earlier.addSubNode room sourceInside sourceActive).congr fun i => ?_
        rw [same i, or_assoc]
      · rw [if_neg fun held => room held.2.2]
        have grown := @Collected.full maxNodes graph _
          (fun i => i = (graph.edges visited).fromNode) _ earlier (Nat.not_lt.mp room)
          fun i here => here ▸ sourceInside
        refine grown.congr fun i => ?_
        rw [same i, or_assoc]
    · rw [if_neg fun held => into ⟨held.1, held.2.1⟩]
      refine earlier.congr fun i => or_congr_right ?_
      rw [Nat.exists_lt_succ_right]
      exact ⟨.inl, fun held => held.resolve_right fun here => into ⟨here.1, here.2.1⟩⟩

theorem Sound.nearbyNode_iff (sound : Sound maxNodes maxEdges graph) {id : PartitionId}
    {root : Nat} (inside : root < maxNodes) (held : (graph.nodes root).partition = some id)
    (i : Nat) :
    graph.NearbyNode maxNodes maxEdges id i ↔
      (i = root ∨ ∃ edge, edge < maxEdges ∧ graph.edgeActive edge = true ∧
        (graph.edges edge).fromNode = root ∧ (graph.edges edge).toNode = i) ∨
      ∃ edge, edge < maxEdges ∧ graph.edgeActive edge = true ∧
        (graph.edges edge).toNode = root ∧ (graph.edges edge).fromNode = i := by
  constructor
  · rintro ⟨pid, at_i, near⟩
    obtain ⟨below, holds⟩ := partitionAt_eq_some.mp at_i
    rcases near with rfl | ⟨edge, edgeInside, active, joins | joins⟩
    · exact .inl (.inl (sound.ids i root pid below inside holds held))
    · have source := (sound.source edge edgeInside active).1
      have target := (sound.target edge edgeInside active).1
      exact .inl (.inr ⟨edge, edgeInside, active, sound.ids _ _ id source inside joins.1 held,
        sound.ids _ _ pid target below joins.2 holds⟩)
    · have source := (sound.source edge edgeInside active).1
      have target := (sound.target edge edgeInside active).1
      exact .inr ⟨edge, edgeInside, active, sound.ids _ _ id target inside joins.2 held,
        sound.ids _ _ pid source below joins.1 holds⟩
  · rintro ((rfl | ⟨edge, edgeInside, active, rfl, rfl⟩) | ⟨edge, edgeInside, active, rfl, rfl⟩)
    · exact ⟨id, partitionAt_eq_some.mpr ⟨inside, held⟩, .inl rfl⟩
    · obtain ⟨below, present⟩ := sound.target edge edgeInside active
      obtain ⟨pid, holds⟩ := Option.isSome_iff_exists.mp present
      exact ⟨pid, partitionAt_eq_some.mpr ⟨below, holds⟩,
        .inr ⟨edge, edgeInside, active, .inl ⟨held, holds⟩⟩⟩
    · obtain ⟨below, present⟩ := sound.source edge edgeInside active
      obtain ⟨pid, holds⟩ := Option.isSome_iff_exists.mp present
      exact ⟨pid, partitionAt_eq_some.mpr ⟨below, holds⟩,
        .inr ⟨edge, edgeInside, active, .inr ⟨holds, held⟩⟩⟩

theorem Sound.nearbyNode_missing (sound : Sound maxNodes maxEdges graph) {id : PartitionId}
    (missing : graph.findNode maxNodes id = none) (i : Nat) :
    ¬ graph.NearbyNode maxNodes maxEdges id i := by
  rintro ⟨pid, at_i, near⟩
  obtain ⟨below, holds⟩ := partitionAt_eq_some.mp at_i
  rcases near with rfl | ⟨edge, edgeInside, active, joins | joins⟩
  · exact sound.findNode_none missing below holds
  · exact sound.findNode_none missing (sound.source edge edgeInside active).1 joins.1
  · exact sound.findNode_none missing (sound.target edge edgeInside active).1 joins.2

theorem Sound.collect (sound : Sound maxNodes maxEdges graph) (id : PartitionId) :
    ∃ subNodes, graph.collect maxNodes maxEdges id = some subNodes ∧
      Collected maxNodes graph (graph.NearbyNode maxNodes maxEdges id) subNodes := by
  unfold CoherenceGraph.collect
  cases found : graph.findNode maxNodes id with
  | none =>
    refine ⟨[], rfl, nodup_nil, fun _ member => ?_, Nat.zero_le _, fun _ member => ?_,
      fun _ i near => absurd near (sound.nearbyNode_missing found i)⟩
    · cases member
    · cases member
  | some root =>
    obtain ⟨inside, held⟩ := sound.findNode_some found
    obtain ⟨cells, threads, bound, members⟩ := sound.list inside
    have start : Collected maxNodes graph (fun i => i = root) [(root, id)] := by
      refine ⟨nodup_singleton root, ?_, (by decide : 1 ≤ mincutMaxNodes), ?_, fun _ i here => ?_⟩
      · intro node member
        rw [mem_singleton.mp member]
        exact ⟨inside, held⟩
      · intro node member
        rw [mem_singleton.mp member]
      · exact mem_singleton.mpr here
    obtain ⟨outgoing, walked, collected⟩ := Collected.neighbors sound threads
      (fun edge member => ⟨((members edge).mp member).1, ((members edge).mp member).2.1⟩)
      (Nat.lt_succ_of_le bound) start
    refine ⟨_, congrArg (Option.map _) walked, (collected.incoming sound le_rfl).congr fun i => ?_⟩
    rw [sound.nearbyNode_iff inside held]
    refine or_congr_left (or_congr_right (exists_congr fun edge => ?_))
    rw [members edge, and_assoc, and_assoc]

end CoherenceGraph

end Rvm.Coherence
