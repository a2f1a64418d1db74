import Rvm.Cap.Table
import Rvm.Foundation.Worklist

/-!
Owns the derivation tree of `rvm-cap/src/derivation.rs`: the first-child / next-sibling links
indexed by table slot, registration, and the two subtree walks with their fixed-size stacks. The
`while` loops of the walks take fuel; a walk that never ends returns `none` for every fuel.
-/

namespace Rvm.Cap

open List Function

structure DerivationNode where
  isValid : Bool
  depth : Nat
  epoch : Nat
  firstChild : Nat
  nextSibling : Nat
  parentIndex : Nat
deriving DecidableEq, Repr

namespace DerivationNode

def empty : DerivationNode := ⟨false, 0, 0, u32Max, u32Max, u32Max⟩

def newRoot (epoch : Nat) : DerivationNode := ⟨true, 0, epoch, u32Max, u32Max, u32Max⟩

def newChild (depth epoch : Nat) : DerivationNode := ⟨true, depth, epoch, u32Max, u32Max, u32Max⟩

end DerivationNode

structure DerivationTree where
  nodes : Nat → DerivationNode
  count : Nat

namespace DerivationTree

def new : DerivationTree := ⟨fun _ => DerivationNode.empty, 0⟩

def addRoot (N : Nat) (tree : DerivationTree) (index epoch : Nat) :
    Except CapError DerivationTree :=
  if index ≥ N then .error .treeFull
  else .ok
    { nodes := update tree.nodes index (DerivationNode.newRoot epoch)
      count := tree.count + 1 }

/-- Prepend the child to the parent's list. The parent is written before the
child, as in the source. -/
def addChild (N : Nat) (tree : DerivationTree) (parentIndex childIndex depth epoch : Nat) :
    Except CapError DerivationTree :=
  if parentIndex ≥ N ∨ childIndex ≥ N then .error .treeFull
  else if !(tree.nodes parentIndex).isValid then .error .revoked
  else
    let child : DerivationNode :=
      { DerivationNode.newChild depth epoch with
        nextSibling := (tree.nodes parentIndex).firstChild
        parentIndex := parentIndex }
    let parent : DerivationNode := { tree.nodes parentIndex with firstChild := childIndex }
    .ok
      { nodes := update (update tree.nodes parentIndex parent) childIndex child
        count := tree.count + 1 }

/-- The inner loop of both walks: follow `next_sibling` from `child`, pushing
the valid nodes while the stack (head on top) has room. -/
def pushChildren (N : Nat) (tree : DerivationTree) :
    Nat → Nat → List Nat → Option (List Nat)
  | 0, _, _ => none
  | fuel + 1, child, stack =>
    if child = u32Max then some stack
    else if child ≥ N then some stack
    else
      let pushed :=
        if (tree.nodes child).isValid ∧ stack.length < N then child :: stack else stack
      pushChildren N tree fuel (tree.nodes child).nextSibling pushed

def collectLoop (N : Nat) (tree : DerivationTree) :
    Nat → List Nat → List Nat → Option (List Nat)
  | 0, _, _ => none
  | _ + 1, [], result => some result
  | fuel + 1, current :: stack, result =>
    if current ≥ N ∨ !(tree.nodes current).isValid then collectLoop N tree fuel stack result
    else
      let result := if result.length < N then result ++ [current] else result
      match pushChildren N tree fuel (tree.nodes current).firstChild stack with
      | none => none
      | some stack => collectLoop N tree fuel stack result

def padded (N : Nat) (collected : List Nat) : List Nat :=
  collected ++ List.replicate (N - collected.length) u32Max

/-- The valid indices of the subtree rooted at `index`, before padding. -/
def collectSubtree (N : Nat) (tree : DerivationTree) (fuel index : Nat) : Option (List Nat) :=
  let stack := if index < N ∧ (tree.nodes index).isValid then [index] else []
  collectLoop N tree fuel stack []

def markInvalid (tree : DerivationTree) (index : Nat) : DerivationTree :=
  { nodes := update tree.nodes index { tree.nodes index with isValid := false }
    count := tree.count - 1 }

def revokeLoop (N : Nat) :
    Nat → DerivationTree → List Nat → Nat → Option (Nat × DerivationTree)
  | 0, _, _, _ => none
  | _ + 1, tree, [], count => some (count, tree)
  | fuel + 1, tree, current :: stack, count =>
    if current ≥ N ∨ !(tree.nodes current).isValid then revokeLoop N fuel tree stack count
    else
      let tree := tree.markInvalid current
      match pushChildren N tree fuel (tree.nodes current).firstChild stack with
      | none => none
      | some stack => revokeLoop N fuel tree stack (count + 1)

def revokeSubtree (N : Nat) (tree : DerivationTree) (fuel index : Nat) :
    Option (Nat × DerivationTree) :=
  if index ≥ N ∨ !(tree.nodes index).isValid then some (0, tree)
  else revokeLoop N fuel tree [index] 0

def revoke (N : Nat) (tree : DerivationTree) (fuel index : Nat) :
    Option (Except CapError (Nat × DerivationTree)) :=
  if index ≥ N then some (.error .invalidHandle)
  else if !(tree.nodes index).isValid then some (.error .revoked)
  else (revokeSubtree N tree fuel index).map .ok

variable {N : Nat} {tree : DerivationTree}

variable {index fuel more start : Nat} {stack result list : List Nat}

theorem addRoot_spec {epoch : Nat} {after : DerivationTree}
    (added : addRoot N tree index epoch = .ok after) :
    index < N ∧ after.nodes = update tree.nodes index (DerivationNode.newRoot epoch) := by
  unfold addRoot at added
  split at added
  · cases added
  · cases added
    exact ⟨by omega, rfl⟩

theorem addChild_spec {parentIndex childIndex depth epoch : Nat} {after : DerivationTree}
    (added : addChild N tree parentIndex childIndex depth epoch = .ok after) :
    parentIndex < N ∧ childIndex < N ∧ (tree.nodes parentIndex).isValid = true ∧
      after.nodes = update
        (update tree.nodes parentIndex
          { tree.nodes parentIndex with firstChild := childIndex }) childIndex
        ⟨true, depth, epoch, u32Max, (tree.nodes parentIndex).firstChild, parentIndex⟩ := by
  unfold addChild at added
  split at added
  · cases added
  · split at added
    · cases added
    · next valid =>
        cases added
        exact ⟨by omega, by omega, by simpa using valid, rfl⟩

theorem pushChildren_mono {child : Nat}
    (returned : pushChildren N tree fuel child stack = some result) (le : fuel ≤ more) :
    pushChildren N tree more child stack = some result := by
  induction fuel generalizing more child stack with
  | zero => cases returned
  | succ fuel ih =>
    obtain ⟨more, rfl⟩ := Nat.exists_eq_add_one_of_ne_zero (show more ≠ 0 by omega)
    unfold pushChildren at returned ⊢
    split
    · simpa [*] using returned
    · split
      · simpa [*] using returned
      · rw [if_neg (by assumption), if_neg (by assumption)] at returned
        exact ih returned (by omega)

theorem collectLoop_mono {visited : List Nat}
    (returned : collectLoop N tree fuel stack visited = some result) (le : fuel ≤ more) :
    collectLoop N tree more stack visited = some result := by
  induction fuel generalizing more stack visited with
  | zero => cases returned
  | succ fuel ih =>
    obtain ⟨more, rfl⟩ := Nat.exists_eq_add_one_of_ne_zero (show more ≠ 0 by omega)
    cases stack with
    | nil => exact returned
    | cons current stack =>
      unfold collectLoop at returned ⊢
      split
      · rw [if_pos (by assumption)] at returned
        exact ih returned (by omega)
      · rw [if_neg (by assumption)] at returned
        dsimp only at returned ⊢
        cases pushed : pushChildren N tree fuel (tree.nodes current).firstChild stack with
        | none => simp [pushed] at returned
        | some next =>
          rw [pushed] at returned
          rw [pushChildren_mono pushed (show fuel ≤ more by omega)]
          exact ih returned (by omega)

theorem revokeLoop_mono {count : Nat} {here : DerivationTree} {result : Nat × DerivationTree}
    (returned : revokeLoop N fuel here stack count = some result) (le : fuel ≤ more) :
    revokeLoop N more here stack count = some result := by
  induction fuel generalizing more here stack count with
  | zero => cases returned
  | succ fuel ih =>
    obtain ⟨more, rfl⟩ := Nat.exists_eq_add_one_of_ne_zero (show more ≠ 0 by omega)
    cases stack with
    | nil => exact returned
    | cons current stack =>
      unfold revokeLoop at returned ⊢
      split
      · rw [if_pos (by assumption)] at returned
        exact ih returned (by omega)
      · rw [if_neg (by assumption)] at returned
        dsimp only at returned ⊢
        cases pushed : pushChildren N (here.markInvalid current) fuel
            ((here.markInvalid current).nodes current).firstChild stack with
        | none => simp [pushed] at returned
        | some next =>
          rw [pushed] at returned
          rw [pushChildren_mono pushed (show fuel ≤ more by omega)]
          exact ih returned (by omega)

theorem collectSubtree_mono (returned : collectSubtree N tree fuel index = some result)
    (le : fuel ≤ more) : collectSubtree N tree more index = some result :=
  collectLoop_mono returned le

theorem revoke_mono {result : Except CapError (Nat × DerivationTree)}
    (returned : revoke N tree fuel index = some result) (le : fuel ≤ more) :
    revoke N tree more index = some result := by
  unfold revoke revokeSubtree at returned ⊢
  split
  · simpa [*] using returned
  · split
    · simpa [*] using returned
    · rw [if_neg (by assumption), if_neg (by assumption), Option.map_eq_some_iff] at returned
      obtain ⟨pair, looped, rfl⟩ := returned
      rw [Option.map_eq_some_iff]
      refine ⟨pair, ?_, rfl⟩
      split
      · rwa [if_pos (by assumption)] at looped
      · rw [if_neg (by assumption)] at looped
        exact revokeLoop_mono looped le

/-- `Chain N tree start list`: following `next_sibling` from `start` visits
exactly the indices of `list` and then the sentinel. -/
inductive Chain (N : Nat) (tree : DerivationTree) : Nat → List Nat → Prop
  | nil : Chain N tree u32Max []
  | cons {index : Nat} {rest : List Nat} : index < N → index ≠ u32Max →
      Chain N tree (tree.nodes index).nextSibling rest → Chain N tree index (index :: rest)

theorem Chain.index_lt (chain : Chain N tree start list) : ∀ index ∈ list, index < N := by
  induction chain with
  | nil => simp
  | cons below _ _ ih =>
    intro other member
    rcases mem_cons.mp member with rfl | tail
    · exact below
    · exact ih other tail

theorem Chain.congr {other : DerivationTree} (chain : Chain N tree start list)
    (same : ∀ index ∈ list, (other.nodes index).nextSibling = (tree.nodes index).nextSibling) :
    Chain N other start list := by
  induction chain with
  | nil => exact .nil
  | cons below notNull _ ih =>
    refine .cons below notNull ?_
    rw [same _ (by simp)]
    exact ih fun index member => same index (mem_cons_of_mem _ member)

/-- With enough fuel and enough room, the inner loop pushes exactly the valid
nodes of the chain, the last one ending on top. -/
theorem pushChildren_chain (chain : Chain N tree start list) :
    ∀ {fuel : Nat} {stack : List Nat}, list.length < fuel →
      stack.length + (list.filter fun index => (tree.nodes index).isValid).length ≤ N →
      pushChildren N tree fuel start stack =
        some ((list.filter fun index => (tree.nodes index).isValid).reverse ++ stack) := by
  induction chain with
  | nil =>
    intro fuel stack enough _
    obtain ⟨more, rfl⟩ := Nat.exists_eq_add_of_lt enough
    simp [pushChildren]
  | @cons index rest below notNull _ ih =>
    intro fuel stack enough room
    obtain ⟨more, rfl⟩ := Nat.exists_eq_add_of_lt enough
    simp only [length_cons] at enough
    have notBelow : ¬ index ≥ N := by omega
    cases valid : (tree.nodes index).isValid with
    | false =>
      simp only [filter_cons, valid] at room ⊢
      have pushed := @ih (rest.length + 1 + more) stack (by omega) room
      simpa [pushChildren, notNull, notBelow, valid] using pushed
    | true =>
      simp only [filter_cons, valid, if_true, length_cons] at room ⊢
      have space : stack.length < N := by omega
      have pushed := @ih (rest.length + 1 + more) (index :: stack)
        (by omega) (by simp only [length_cons]; omega)
      simpa [pushChildren, notNull, notBelow, valid, space] using pushed

open Foundation.Worklist

def arena (N : Nat) (tree : DerivationTree) : Finset Nat :=
  (Finset.range N).filter fun index => (tree.nodes index).isValid = true

theorem mem_arena : index ∈ arena N tree ↔ index < N ∧ (tree.nodes index).isValid = true := by
  simp [arena]

theorem card_arena_le : (arena N tree).card ≤ N := by
  calc (arena N tree).card ≤ (Finset.range N).card := Finset.card_filter_le _ _
    _ = N := Finset.card_range N

def validChildren (tree : DerivationTree) (lists : Nat → List Nat) (index : Nat) : List Nat :=
  (lists index).filter fun child => (tree.nodes child).isValid

/-- A tree whose valid nodes own duplicate-free child lists that together form
a forest: the condition under which the walks are exact. -/
structure Linked (N : Nat) (tree : DerivationTree) (lists : Nat → List Nat) : Prop where
  chain : ∀ index ∈ arena N tree, Chain N tree (tree.nodes index).firstChild (lists index)
  nodup : ∀ index ∈ arena N tree, (lists index).Nodup
  forest : Forest (validChildren tree lists) (arena N tree)

theorem Linked.length_le {lists : Nat → List Nat} (linked : Linked N tree lists)
    (member : index ∈ arena N tree) : (lists index).length ≤ N := by
  have subset : (lists index).toFinset ⊆ Finset.range N := by
    intro other otherMember
    exact Finset.mem_range.mpr
      ((linked.chain index member).index_lt other (mem_toFinset.mp otherMember))
  have cardLe := Finset.card_le_card subset
  rwa [toFinset_card_of_nodup (linked.nodup index member), Finset.card_range] at cardLe

theorem collectLoop_spec {lists : Nat → List Nat} (linked : Linked N tree lists) {root : Nat} :
    ∀ {fuel : Nat} {stack visited : List Nat},
      Frontier (validChildren tree lists) (arena N tree) root stack visited →
      N + 1 + ((arena N tree).card - visited.length) < fuel →
      ∃ final, collectLoop N tree fuel stack visited = some final ∧
        Frontier (validChildren tree lists) (arena N tree) root [] final := by
  intro fuel
  induction fuel with
  | zero =>
    intro _ _ _ enough
    omega
  | succ fuel ih =>
    intro stack visited frontier enough
    cases stack with
    | nil => exact ⟨visited, rfl, frontier⟩
    | cons current stack =>
      have member : current ∈ arena N tree := frontier.inside current (by simp)
      obtain ⟨below, valid⟩ := mem_arena.mp member
      have next := frontier.step linked.forest
      have seen := frontier.length_le
      have seenNext := next.length_le
      have cardLe : (arena N tree).card ≤ N := card_arena_le
      simp only [length_cons, length_append, length_reverse, length_nil] at seen seenNext
      have pushed : pushChildren N tree fuel (tree.nodes current).firstChild stack =
          some ((validChildren tree lists current).reverse ++ stack) := by
        have listLe := linked.length_le member
        refine pushChildren_chain (linked.chain current member) (by omega) ?_
        change stack.length + (validChildren tree lists current).length ≤ N
        omega
      have proceed : ¬ (current ≥ N ∨ (!(tree.nodes current).isValid) = true) := by
        simp [valid]
        omega
      have room : visited.length < N := by omega
      simp only [collectLoop, if_neg proceed, if_pos room, pushed]
      refine ih next ?_
      simp only [length_append, length_singleton]
      omega

/-- Collection returns, without repetition, exactly the valid nodes at or below
`index`. -/
theorem collectSubtree_spec {lists : Nat → List Nat} (linked : Linked N tree lists)
    (member : index ∈ arena N tree) (enough : 2 * N + 1 < fuel) :
    ∃ collected, collectSubtree N tree fuel index = some collected ∧ collected.Nodup ∧
      ∀ node, node ∈ collected ↔ Below (validChildren tree lists) index node := by
  have cardLe : (arena N tree).card ≤ N := card_arena_le
  obtain ⟨final, collected, frontier⟩ := @collectLoop_spec N tree lists linked index fuel _ _
    (Frontier.initial member) (by simp only [length_nil]; omega)
  refine ⟨final, ?_, frontier.visited_nodup, frontier.complete⟩
  rw [collectSubtree, if_pos (mem_arena.mp member)]
  exact collected

def marked (tree : DerivationTree) (visited : List Nat) : Nat → DerivationNode :=
  fun index =>
    if index ∈ visited then { tree.nodes index with isValid := false } else tree.nodes index

theorem marked_snoc (visited : List Nat) (current : Nat) :
    update (marked tree visited) current
        { marked tree visited current with isValid := false } =
      marked tree (visited ++ [current]) := by
  funext index
  by_cases same : index = current
  · subst same
    simp only [update_self, marked, mem_append, mem_singleton, or_true, if_true]
    split <;> rfl
  · simp [marked, same]

theorem marked_isValid (visited : List Nat) (index : Nat) :
    (marked tree visited index).isValid = true ↔
      (tree.nodes index).isValid = true ∧ index ∉ visited := by
  unfold marked
  split <;> simp_all

theorem revokeLoop_spec {lists : Nat → List Nat} (linked : Linked N tree lists) {root : Nat} :
    ∀ {fuel : Nat} {here : DerivationTree} {stack visited : List Nat},
      Frontier (validChildren tree lists) (arena N tree) root stack visited →
      here.nodes = marked tree visited → here.count = tree.count - visited.length →
      N + 1 + ((arena N tree).card - visited.length) < fuel →
      ∃ final after, revokeLoop N fuel here stack visited.length = some (final.length, after) ∧
        Frontier (validChildren tree lists) (arena N tree) root [] final ∧
        after.nodes = marked tree final ∧ after.count = tree.count - final.length := by
  intro fuel
  induction fuel with
  | zero =>
    intro _ _ _ _ _ _ enough
    omega
  | succ fuel ih =>
    intro here stack visited frontier nodes count enough
    cases stack with
    | nil => exact ⟨visited, here, rfl, frontier, nodes, count⟩
    | cons current stack =>
      have member : current ∈ arena N tree := frontier.inside current (by simp)
      obtain ⟨below, valid⟩ := mem_arena.mp member
      have unvisited : current ∉ visited := by
        intro old
        exact (nodup_append.mp frontier.nodup).2.2 current old current (by simp) rfl
      have next := frontier.step linked.forest
      have seen := frontier.length_le
      have seenNext := next.length_le
      have cardLe : (arena N tree).card ≤ N := card_arena_le
      simp only [length_cons, length_append, length_reverse, length_nil] at seen seenNext
      have markedNodes : (here.markInvalid current).nodes = marked tree (visited ++ [current]) := by
        simp only [markInvalid, nodes]
        exact marked_snoc visited current
      -- Marking changes no link, and the children of `current` are still unvisited.
      have chain : Chain N (here.markInvalid current) (tree.nodes current).firstChild
          (lists current) := by
        refine (linked.chain current member).congr fun index _ => ?_
        rw [markedNodes, marked]
        split <;> rfl
      have stillValid : (lists current).filter
          (fun child => ((here.markInvalid current).nodes child).isValid) =
          validChildren tree lists current := by
        refine filter_congr fun child listed => ?_
        rw [markedNodes, Bool.eq_iff_iff, marked_isValid]
        refine ⟨fun both => both.1, fun childValid => ⟨childValid, fun old => ?_⟩⟩
        have edge : child ∈ validChildren tree lists current :=
          mem_filter.mpr ⟨listed, childValid⟩
        refine frontier.fresh linked.forest edge ?_
        rcases mem_append.mp old with early | isCurrent
        · exact mem_append_left _ early
        · exact mem_append_right _ (by simp [mem_singleton.mp isCurrent])
      have pushed : pushChildren N (here.markInvalid current) fuel
          ((here.markInvalid current).nodes current).firstChild stack =
          some ((validChildren tree lists current).reverse ++ stack) := by
        have listLe := linked.length_le member
        have first : ((here.markInvalid current).nodes current).firstChild =
            (tree.nodes current).firstChild := by
          rw [markedNodes, marked]
          split <;> rfl
        rw [first, pushChildren_chain chain (by omega) (by rw [stillValid]; omega), stillValid]
      have proceed : ¬ (current ≥ N ∨ (!(here.nodes current).isValid) = true) := by
        have : (here.nodes current).isValid = true := by
          rw [nodes, marked_isValid]
          exact ⟨valid, unvisited⟩
        simp [this]
        omega
      simp only [revokeLoop, if_neg proceed, pushed]
      have lengthEq : (visited ++ [current]).length = visited.length + 1 := by simp
      rw [← lengthEq]
      refine ih next markedNodes ?_ (by omega)
      simp only [markInvalid, count, lengthEq]
      omega

theorem revoke_spec {lists : Nat → List Nat} (linked : Linked N tree lists)
    (member : index ∈ arena N tree) (enough : 2 * N + 1 < fuel) :
    ∃ visited after, revoke N tree fuel index = some (.ok (visited.length, after)) ∧
      visited.Nodup ∧ (∀ node, node ∈ visited ↔ Below (validChildren tree lists) index node) ∧
      after.nodes = marked tree visited ∧ after.count = tree.count - visited.length := by
  have cardLe : (arena N tree).card ≤ N := card_arena_le
  obtain ⟨below, valid⟩ := mem_arena.mp member
  obtain ⟨final, after, ended, frontier, nodes, count⟩ :=
    @revokeLoop_spec N tree lists linked index fuel tree _ _ (Frontier.initial member)
      (by funext node; simp [marked]) (by simp) (by simp only [length_nil]; omega)
  refine ⟨final, after, ?_, frontier.visited_nodup, frontier.complete, nodes, count⟩
  have notBeyond : ¬ index ≥ N := by omega
  have ended' : revokeLoop N fuel tree [index] 0 = some (final.length, after) := ended
  simp [revoke, revokeSubtree, notBeyond, valid, ended']

end DerivationTree

end Rvm.Cap
