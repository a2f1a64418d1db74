import Mathlib.Data.Fintype.EquivFin
import Mathlib.Order.WellFounded

/-!
Owns descent on graphs (a relation stays well founded under redirection; needs can be met
where they have no cycle) and a worklist traversal of a finite forest, which ends having
visited exactly the nodes below the root.
-/

namespace Foundation.Descent

open List

universe u v

variable {Node : Type u} {old new : Node → Node → Prop}

theorem founded_of_fewer (founded : ∀ node, Acc old node)
    (fewer : ∀ {child parent}, new child parent → old child parent) (node : Node) : Acc new node :=
  Subrelation.accessible (fun edge => fewer edge) (founded node)

section Redirect

variable {Region Leaf : Node → Prop}

theorem region_founded (founded : ∀ node, Acc old node)
    (leaf : ∀ {child parent}, Leaf parent → ¬ new child parent)
    (region : ∀ {child parent}, Region parent → new child parent →
      Leaf child ∨ Region child ∧ old child parent)
    {node : Node} (inside : Region node) : Acc new node := by
  induction founded node with
  | intro node _ ih =>
    refine Acc.intro node fun child edge => ?_
    rcases region inside edge with isLeaf | ⟨childInside, oldEdge⟩
    · exact Acc.intro child fun _ below => absurd below (leaf isLeaf)
    · exact ih child oldEdge childInside

theorem redirect_founded (founded : ∀ node, Acc old node)
    (leaf : ∀ {child parent}, Leaf parent → ¬ new child parent)
    (region : ∀ {child parent}, Region parent → new child parent →
      Leaf child ∨ Region child ∧ old child parent)
    (outside : ∀ {child parent}, new child parent → Leaf child ∨ Region child ∨ old child parent)
    (node : Node) : Acc new node := by
  induction founded node with
  | intro node _ ih =>
    refine Acc.intro node fun child edge => ?_
    rcases outside edge with isLeaf | childInside | oldEdge
    · exact Acc.intro child fun _ below => absurd below (leaf isLeaf)
    · exact region_founded founded leaf region childInside
    · exact ih child oldEdge

end Redirect

section Orders

variable {Node : Type u} {Needs : Node → Node → Prop}

theorem exists_order {α : Type v} (founded : WellFounded (Function.swap Needs)) (key : α → Node)
    (items : List α) : ∃ order : List α, order.Perm items ∧
      order.Pairwise fun first second => ¬Needs (key first) (key second) := by
  induction count : items.length generalizing items with
  | zero => exact ⟨[], length_eq_zero_iff.mp count ▸ .refl _, .nil⟩
  | succ n ih =>
    obtain ⟨first, member, least⟩ := (InvImage.wf key founded).has_min {item | item ∈ items}
      (exists_mem_of_length_pos (by omega))
    classical
    obtain ⟨order, same, later⟩ := ih (items.erase first) (by
      rw [length_erase_of_mem member, count]
      rfl)
    exact ⟨first :: order, (same.cons first).trans (perm_cons_erase member).symm,
      pairwise_cons.mpr ⟨fun other below =>
        least other (mem_of_mem_erase (same.mem_iff.mp below)), later⟩⟩

end Orders

section Marks

variable {Node : Type u} {Needs : Node → Node → Prop} {Done : Node → Prop}

/-- A set that takes in whatever needs nothing outside it, filled only with nodes whose needs
end, is everything exactly where all needs end. -/
theorem done_all_iff (founded : ∀ node, Done node → Acc (Function.swap Needs) node)
    (closed : ∀ node, (∀ needed, Needs node needed → Done needed) → Done node) :
    (∀ node, Done node) ↔ WellFounded (Function.swap Needs) := by
  constructor
  · exact fun all => ⟨fun node => founded node (all node)⟩
  · intro descends node
    induction node using descends.induction with
    | _ node ih => exact closed node ih

theorem founded_iff_acyclic [Finite Node] :
    WellFounded (Function.swap Needs) ↔ ∀ node, ¬Relation.TransGen Needs node node := by
  constructor
  · intro descends node cycle
    have back := Relation.transGen_swap.mpr cycle
    exact descends.transGen.asymmetric _ _ back back
  · intro acyclic
    have : Std.Irrefl (Relation.TransGen (Function.swap Needs)) :=
      ⟨fun node cycle => acyclic node (Relation.transGen_swap.mp cycle)⟩
    exact Subrelation.wf .single
      (Finite.wellFounded_of_trans_of_irrefl (Relation.TransGen (Function.swap Needs)))

end Marks

section Worklists

variable {Ends : List Node → Prop} {child : Node → Node → Prop}

theorem ends_append {pushed stack : List Node} (below : Ends stack)
    (top : ∀ node ∈ pushed, ∀ rest, Ends rest → Ends (node :: rest)) : Ends (pushed ++ stack) := by
  induction pushed with
  | nil => exact below
  | cons node rest ih =>
    exact top node mem_cons_self _ (ih fun other member =>
      top other (mem_cons_of_mem node member))

/-- The rule for worklists: a stack ends if the empty one does and each visit
replaces the top by children of it. -/
theorem drains (founded : ∀ node, Acc child node) (empty : Ends [])
    (visit : ∀ current stack,
      (∀ pushed, (∀ node ∈ pushed, child node current) → Ends (pushed ++ stack)) →
        Ends (current :: stack)) (stack : List Node) : Ends stack := by
  have top : ∀ node, ∀ rest, Ends rest → Ends (node :: rest) := by
    intro node
    induction founded node with
    | intro node _ ih =>
      intro rest ends
      exact visit node rest fun pushed children =>
        ends_append ends fun other member => ih other (children other member)
  induction stack with
  | nil => exact empty
  | cons node rest ih => exact top node rest ih

end Worklists

end Foundation.Descent

namespace Foundation.Worklist

universe u

variable {Node : Type u}

/-- Zero or more child steps. -/
abbrev Below (children : Node → List Node) : Node → Node → Prop :=
  Relation.ReflTransGen (fun parent child => child ∈ children parent)

/-- A finite forest given by child lists: children stay in the arena, each
child has one parent, and a rank grows along child edges. -/
structure Forest (children : Node → List Node) (arena : Finset Node) : Prop where
  nodup : ∀ node ∈ arena, (children node).Nodup
  inside : ∀ node ∈ arena, ∀ child ∈ children node, child ∈ arena
  unique : ∀ left ∈ arena, ∀ right ∈ arena, ∀ child,
    child ∈ children left → child ∈ children right → left = right
  ranked : ∃ rank : Node → Nat, ∀ node ∈ arena, ∀ child ∈ children node,
    rank node < rank child

/-- The invariant of the traversal from `root`. -/
structure Frontier (children : Node → List Node) (arena : Finset Node) (root : Node)
    (stack visited : List Node) : Prop where
  nodup : (visited ++ stack).Nodup
  inside : ∀ node ∈ visited ++ stack, node ∈ arena
  below : ∀ node ∈ visited ++ stack, Below children root node
  closed : ∀ node ∈ visited, ∀ child ∈ children node, child ∈ visited ++ stack
  rooted : root ∈ visited ++ stack
  parented : ∀ node ∈ visited ++ stack, node = root ∨ ∃ parent ∈ visited, node ∈ children parent

variable {children : Node → List Node} {arena : Finset Node} {root : Node}
  {stack visited : List Node}

theorem Forest.rank_le (forest : Forest children arena) {rank : Node → Nat}
    (ranked : ∀ node ∈ arena, ∀ child ∈ children node, rank node < rank child)
    (rootInside : root ∈ arena) {node : Node} (below : Below children root node) :
    node ∈ arena ∧ rank root ≤ rank node := by
  induction below with
  | refl => exact ⟨rootInside, le_rfl⟩
  | tail _ edge ih =>
    obtain ⟨inside, le⟩ := ih
    exact ⟨forest.inside _ inside _ edge, le.trans (ranked _ inside _ edge).le⟩

theorem Forest.root_not_child (forest : Forest children arena)
    (rootInside : root ∈ arena) {node : Node} (below : Below children root node) :
    root ∉ children node := by
  obtain ⟨rank, ranked⟩ := forest.ranked
  intro member
  obtain ⟨inside, le⟩ := forest.rank_le ranked rootInside below
  exact absurd (ranked _ inside _ member) (Nat.not_lt.mpr le)

theorem Frontier.initial (rootInside : root ∈ arena) :
    Frontier children arena root [root] [] where
  nodup := by simp
  inside := by simpa using rootInside
  below := by
    intro node member
    obtain rfl : node = root := by simpa using member
    exact .refl
  closed := by simp
  rooted := by simp
  parented := by simp

theorem Frontier.length_le (frontier : Frontier children arena root stack visited) :
    visited.length + stack.length ≤ arena.card := by
  classical
  have subset : (visited ++ stack).toFinset ⊆ arena := by
    intro node member
    exact frontier.inside node (List.mem_toFinset.mp member)
  have cardLe := Finset.card_le_card subset
  rw [List.toFinset_card_of_nodup frontier.nodup, List.length_append] at cardLe
  exact cardLe

theorem Frontier.fresh {top : Node} (forest : Forest children arena)
    (frontier : Frontier children arena root (top :: stack) visited)
    {child : Node} (edge : child ∈ children top) :
    child ∉ visited ++ top :: stack := by
  intro member
  have topMember : top ∈ visited ++ top :: stack := by simp
  have rootInside : root ∈ arena := frontier.inside _ frontier.rooted
  rcases frontier.parented child member with isRoot | ⟨parent, parentVisited, parentEdge⟩
  · rw [isRoot] at edge
    exact forest.root_not_child rootInside (frontier.below top topMember) edge
  · have parentInside : parent ∈ arena :=
      frontier.inside parent (List.mem_append_left _ parentVisited)
    have same : parent = top :=
      forest.unique parent parentInside top (frontier.inside top topMember) child parentEdge edge
    have disjoint := (List.nodup_append.mp frontier.nodup).2.2
    exact disjoint parent parentVisited top (by simp) same

theorem Frontier.step {top : Node} (forest : Forest children arena)
    (frontier : Frontier children arena root (top :: stack) visited) :
    Frontier children arena root ((children top).reverse ++ stack) (visited ++ [top]) := by
  have topMember : top ∈ visited ++ top :: stack := by simp
  have topInside := frontier.inside top topMember
  have regroup : ∀ node, node ∈ (visited ++ [top]) ++ ((children top).reverse ++ stack) ↔
      node ∈ visited ++ top :: stack ∨ node ∈ children top := by
    intro node
    simp only [List.mem_append, List.mem_cons, List.mem_reverse, List.not_mem_nil, or_false]
    tauto
  constructor
  · have freshChildren : ∀ node ∈ visited ++ top :: stack, ∀ child ∈ children top,
        node ≠ child := by
      intro node member child edge same
      exact frontier.fresh forest edge (same ▸ member)
    have permuted : (visited ++ [top] ++ ((children top).reverse ++ stack)).Perm
        ((visited ++ top :: stack) ++ children top) := by
      have tail : ((children top).reverse ++ stack).Perm (stack ++ children top) :=
        List.perm_append_comm.trans (List.Perm.append_left _ (List.reverse_perm _))
      simpa using List.Perm.append_left (visited ++ [top]) tail
    rw [permuted.nodup_iff, List.nodup_append]
    exact ⟨frontier.nodup, forest.nodup top topInside, freshChildren⟩
  · intro node member
    rcases (regroup node).mp member with old | edge
    · exact frontier.inside node old
    · exact forest.inside top topInside node edge
  · intro node member
    rcases (regroup node).mp member with old | edge
    · exact frontier.below node old
    · exact (frontier.below top topMember).tail edge
  · intro node member child edge
    rw [regroup]
    rcases List.mem_append.mp member with visitedMember | isTop
    · exact Or.inl (frontier.closed node visitedMember child edge)
    · obtain rfl : node = top := by simpa using isTop
      exact Or.inr edge
  · exact (regroup root).mpr (Or.inl frontier.rooted)
  · intro node member
    rcases (regroup node).mp member with old | edge
    · rcases frontier.parented node old with isRoot | ⟨parent, parentVisited, parentEdge⟩
      · exact Or.inl isRoot
      · exact Or.inr ⟨parent, List.mem_append_left _ parentVisited, parentEdge⟩
    · exact Or.inr ⟨top, by simp, edge⟩

theorem Frontier.complete (frontier : Frontier children arena root [] visited)
    (node : Node) : node ∈ visited ↔ Below children root node := by
  constructor
  · intro member
    exact frontier.below node (by simpa using member)
  · intro below
    induction below with
    | refl => simpa using frontier.rooted
    | tail _ edge ih =>
      simpa using frontier.closed _ ih _ edge

theorem Frontier.visited_nodup (frontier : Frontier children arena root [] visited) :
    visited.Nodup := by
  simpa using frontier.nodup

end Foundation.Worklist
