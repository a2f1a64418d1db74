import Rvm.Cap.DeepProof
import Rvm.Cap.Forest
import Rvm.Foundation.Threaded

/-!
Owns the termination of the walks over the derivation tree: every sibling list ends, and no
valid node is listed at or below itself. A grant harms neither as long as the walk over the
subtree of its source does not meet its slot.
-/

namespace Rvm.Cap

open Foundation Foundation.Descent Function List

namespace DerivationTree

/-- An index the loops follow; all others end a walk. -/
def clip (N index : Nat) : Nat := if index < N then index else u32Max

def follow (N : Nat) (tree : DerivationTree) (index : Nat) : Nat :=
  clip N (tree.nodes index).nextSibling

/-- The cells that a sibling walk from an index visits. -/
def Walks (N : Nat) (tree : DerivationTree) (start : Nat) (cells : List Nat) : Prop :=
  Threads (follow N tree) u32Max (clip N start) cells

def ChildOf (N : Nat) (tree : DerivationTree) (child parent : Nat) : Prop :=
  parent ∈ arena N tree ∧ child ∈ arena N tree ∧
    ∃ cells, Walks N tree (tree.nodes parent).firstChild cells ∧ child ∈ cells

/-- Every sibling list ends and no valid node is listed below itself. -/
structure Settled (N : Nat) (tree : DerivationTree) : Prop where
  walks : ∀ index, ∃ cells, Walks N tree (tree.nodes index).firstChild cells
  founded : ∀ index, Acc (ChildOf N tree) index

variable {N : Nat} {tree before after : DerivationTree}

/-! ### Sibling walks -/

variable {index start : Nat} {cells : List Nat}

theorem clip_of_lt (below : index < N) : clip N index = index := if_pos below

theorem clip_sentinel : clip N u32Max = u32Max := ite_self _

theorem clip_eq_cell {cell : Nat} (same : clip N index = cell) (inside : cell ≠ u32Max) :
    index = cell ∧ cell < N := by
  unfold clip at same
  split at same
  · exact ⟨same, same ▸ by assumption⟩
  · exact absurd same.symm inside

theorem Walks.along
    {motive : (start : Nat) → (cells : List Nat) → Walks N tree start cells → Prop}
    (ended : ∀ start walks, (start ≠ u32Max → start ≥ N) → motive start [] walks)
    (visit : ∀ start rest walks later, start < N → start ≠ u32Max →
      motive (tree.nodes start).nextSibling rest later → motive start (start :: rest) walks)
    {start : Nat} {cells : List Nat} (walks : Walks N tree start cells) :
    motive start cells walks := by
  induction cells generalizing start with
  | nil =>
    refine ended start walks fun notSentinel => ?_
    by_contra below
    have stop : clip N start = u32Max := walks
    rw [clip_of_lt (Nat.not_le.mp below)] at stop
    exact notSentinel stop
  | cons head rest ih =>
    obtain ⟨same, inside, later⟩ := walks
    obtain ⟨rfl, below⟩ := clip_eq_cell same inside
    exact visit start rest _ later below inside (ih later)

theorem Walks.cell_lt (walks : Walks N tree start cells) :
    ∀ cell ∈ cells, cell < N ∧ cell ≠ u32Max := by
  induction walks using Walks.along with
  | ended => exact fun _ member => by cases member
  | visit start rest _ _ below inside ih =>
    intro cell member
    rcases mem_cons.mp member with rfl | behind
    · exact ⟨below, inside⟩
    · exact ih cell behind

theorem Walks.length_le (walks : Walks N tree start cells) : cells.length ≤ N := by
  have within : cells ⊆ List.range N := fun cell member =>
    mem_range.mpr (walks.cell_lt cell member).1
  have bound := (walks.nodup.subperm within).length_le
  rwa [length_range] at bound

theorem Walks.listed {slot : Nat} (walks : Walks N tree start cells) (member : slot ∈ cells) :
    Relation.ReflTransGen
      (fun here next => here < N ∧ here ≠ u32Max ∧ (tree.nodes here).nextSibling = next)
      start slot := by
  induction walks using Walks.along with
  | ended => cases member
  | visit start rest _ _ below inside ih =>
    rcases mem_cons.mp member with rfl | behind
    · exact .refl
    · exact .head ⟨below, inside, rfl⟩ (ih behind)

theorem Walks.congr (walks : Walks N before start cells)
    (same : ∀ cell ∈ cells, (after.nodes cell).nextSibling = (before.nodes cell).nextSibling) :
    Walks N after start cells :=
  Threads.congr walks fun cell member => by rw [follow, same cell member, follow]

/-! ### The loops end -/

theorem pushChildren_returns {start : Nat} {cells : List Nat} (walks : Walks N tree start cells)
    {fuel : Nat} {stack : List Nat} (enough : cells.length < fuel) :
    ∃ pushed, pushChildren N tree fuel start stack = some (pushed ++ stack) ∧
      ∀ child ∈ pushed, child ∈ cells ∧ (tree.nodes child).isValid = true := by
  induction walks using Walks.along generalizing fuel stack with
  | ended start _ stop =>
    obtain ⟨fuel, rfl⟩ := Nat.exists_eq_add_one_of_ne_zero (Nat.ne_zero_of_lt enough)
    refine ⟨[], ?_, fun _ member => by cases member⟩
    rw [pushChildren]
    split
    · rfl
    · rename_i notSentinel
      rw [if_pos (stop notSentinel)]
      rfl
  | visit start rest _ _ below inside ih =>
    obtain ⟨fuel, rfl⟩ := Nat.exists_eq_add_one_of_ne_zero (Nat.ne_zero_of_lt enough)
    have enough : rest.length < fuel := Nat.lt_of_succ_lt_succ enough
    rw [pushChildren, if_neg inside, if_neg (Nat.not_le.mpr below)]
    dsimp only
    split
    · rename_i valid
      obtain ⟨pushed, returned, members⟩ := @ih fuel (start :: stack) enough
      refine ⟨pushed ++ [start], ?_, fun child member => ?_⟩
      · rw [append_assoc]
        exact returned
      · rcases mem_append.mp member with behind | isHead
        · exact ⟨mem_cons_of_mem _ (members child behind).1, (members child behind).2⟩
        · rw [mem_singleton.mp isHead]
          exact ⟨mem_cons_self, valid.1⟩
    · obtain ⟨pushed, returned, members⟩ := @ih fuel stack enough
      exact ⟨pushed, returned, fun child member =>
        ⟨mem_cons_of_mem _ (members child member).1, (members child member).2⟩⟩

/-- Collecting ends from every stack: a visit pushes children of the node. -/
theorem Settled.collectLoop_returns (settled : Settled N tree) (stack : List Nat) :
    ∀ result, ∃ fuel collected, collectLoop N tree fuel stack result = some collected := by
  refine @drains Nat (fun stack => ∀ result, ∃ fuel collected,
    collectLoop N tree fuel stack result = some collected) (ChildOf N tree) settled.founded
    (fun result => ⟨1, result, rfl⟩) (fun current stack visited result => ?_) stack
  by_cases skipped : current ≥ N ∨ (!(tree.nodes current).isValid) = true
  · obtain ⟨fuel, collected, returned⟩ := visited [] (fun _ member => by cases member) result
    refine ⟨fuel + 1, collected, ?_⟩
    rw [collectLoop, if_pos skipped]
    exact returned
  · obtain ⟨below, valid⟩ := not_or.mp skipped
    have member : current ∈ arena N tree :=
      mem_arena.mpr ⟨Nat.not_le.mp below, by simpa using valid⟩
    obtain ⟨cells, walks⟩ := settled.walks current
    obtain ⟨pushed, pushes, children⟩ :=
      @pushChildren_returns N tree _ cells walks (N + 1) stack (Nat.lt_succ_of_le walks.length_le)
    obtain ⟨fuel, collected, returned⟩ := visited pushed
      (fun child isPushed => ⟨member,
        mem_arena.mpr ⟨(walks.cell_lt child (children child isPushed).1).1,
          (children child isPushed).2⟩, cells, walks, (children child isPushed).1⟩)
      (if result.length < N then result ++ [current] else result)
    refine ⟨max fuel (N + 1) + 1, collected, ?_⟩
    rw [collectLoop, if_neg skipped]
    dsimp only
    rw [pushChildren_mono pushes (Nat.le_max_right _ _)]
    exact collectLoop_mono returned (Nat.le_max_left _ _)

theorem Settled.collectSubtree_returns (settled : Settled N tree) (index : Nat) :
    ∃ fuel collected, tree.collectSubtree N fuel index = some collected :=
  settled.collectLoop_returns _ []

/-- Two trees with the same links, the second with no more valid nodes. -/
structure Withered (before after : DerivationTree) : Prop where
  firstChild : ∀ index, (after.nodes index).firstChild = (before.nodes index).firstChild
  nextSibling : ∀ index, (after.nodes index).nextSibling = (before.nodes index).nextSibling
  valid : ∀ index, (after.nodes index).isValid = true → (before.nodes index).isValid = true

theorem Withered.trans {final : DerivationTree} (first : Withered before after)
    (second : Withered after final) : Withered before final where
  firstChild index := (second.firstChild index).trans (first.firstChild index)
  nextSibling index := (second.nextSibling index).trans (first.nextSibling index)
  valid index holds := first.valid index (second.valid index holds)

theorem Withered.refl (tree : DerivationTree) : Withered tree tree :=
  ⟨fun _ => rfl, fun _ => rfl, fun _ valid => valid⟩

theorem markInvalid_withered (current : Nat) : Withered tree (tree.markInvalid current) := by
  have field : ∀ {α : Type} (get : DerivationNode → α),
      (∀ node : DerivationNode, get { node with isValid := false } = get node) → ∀ index,
      get ((tree.markInvalid current).nodes index) = get (tree.nodes index) := by
    intro α get keeps index
    show get (update tree.nodes current _ index) = _
    by_cases here : index = current
    · rw [here, update_self, keeps]
    · rw [update_of_ne here]
  refine ⟨field _ fun _ => rfl, field _ fun _ => rfl, fun index valid => ?_⟩
  have valid : (update tree.nodes current
      { tree.nodes current with isValid := false } index).isValid = true := valid
  by_cases here : index = current
  · rw [here, update_self] at valid
    cases valid
  · rwa [update_of_ne here] at valid

theorem Withered.walks (withered : Withered before after) (walks : Walks N before start cells) :
    Walks N after start cells :=
  walks.congr fun cell _ => withered.nextSibling cell

theorem arena_markInvalid {current : Nat} (member : current ∈ arena N tree) :
    (arena N (tree.markInvalid current)).card < (arena N tree).card := by
  refine Finset.card_lt_card ⟨fun index inside => ?_, fun subset => ?_⟩
  · obtain ⟨below, valid⟩ := mem_arena.mp inside
    exact mem_arena.mpr ⟨below, (markInvalid_withered current).valid index valid⟩
  · obtain ⟨_, stillValid⟩ := mem_arena.mp (subset member)
    have gone : ((tree.markInvalid current).nodes current).isValid = false := by
      show (update tree.nodes current _ current).isValid = false
      rw [update_self]
    rw [gone] at stillValid
    cases stillValid

/-- Revoking ends whenever the sibling lists do: each visit marks a valid node
or shortens the stack. -/
theorem revokeLoop_returns (walks : ∀ index, ∃ cells, Walks N tree (tree.nodes index).firstChild cells)
    (stack : List Nat) (count : Nat) :
    ∃ fuel result, revokeLoop N fuel tree stack count = some result := by
  induction size : (arena N tree).card using Nat.strong_induction_on generalizing tree stack count
    with
  | _ size marking =>
    induction stack generalizing count with
    | nil => exact ⟨1, _, rfl⟩
    | cons current stack popping =>
      by_cases skipped : current ≥ N ∨ (!(tree.nodes current).isValid) = true
      · obtain ⟨fuel, result, returned⟩ := popping count
        refine ⟨fuel + 1, result, ?_⟩
        rw [revokeLoop, if_pos skipped]
        exact returned
      · obtain ⟨below, valid⟩ := not_or.mp skipped
        have member : current ∈ arena N tree :=
          mem_arena.mpr ⟨Nat.not_le.mp below, by simpa using valid⟩
        have withered := @markInvalid_withered tree current
        have marked : ∀ index, ∃ cells, Walks N (tree.markInvalid current)
            ((tree.markInvalid current).nodes index).firstChild cells := by
          intro index
          obtain ⟨cells, here⟩ := walks index
          rw [withered.firstChild]
          exact ⟨cells, withered.walks here⟩
        obtain ⟨cells, here⟩ := marked current
        obtain ⟨pushed, pushes, _⟩ := @pushChildren_returns N _ _ cells here (N + 1) stack
          (Nat.lt_succ_of_le here.length_le)
        obtain ⟨fuel, result, returned⟩ := marking _ (size ▸ arena_markInvalid member) marked
          (pushed ++ stack) (count + 1) rfl
        refine ⟨max fuel (N + 1) + 1, result, ?_⟩
        rw [revokeLoop, if_neg skipped]
        dsimp only
        rw [pushChildren_mono pushes (Nat.le_max_right _ _)]
        exact revokeLoop_mono returned (Nat.le_max_left _ _)

theorem Settled.revokeSubtree_returns (settled : Settled N tree) (index : Nat) :
    ∃ fuel result, tree.revokeSubtree N fuel index = some result := by
  by_cases skipped : index ≥ N ∨ (!(tree.nodes index).isValid) = true
  · exact ⟨0, _, if_pos skipped⟩
  · obtain ⟨fuel, result, returned⟩ := revokeLoop_returns settled.walks [index] 0
    refine ⟨fuel, result, ?_⟩
    rw [revokeSubtree, if_neg skipped]
    exact returned

theorem siblingsContain_returns {childIndex start : Nat} {cells : List Nat}
    (walks : Walks N tree start cells) {fuel : Nat} (enough : cells.length < fuel) :
    ∃ found, siblingsContain N tree childIndex fuel start = some found := by
  induction walks using Walks.along generalizing fuel with
  | ended start _ stop =>
    obtain ⟨fuel, rfl⟩ := Nat.exists_eq_add_one_of_ne_zero (Nat.ne_zero_of_lt enough)
    rw [siblingsContain]
    split
    · exact ⟨_, rfl⟩
    · rename_i notSentinel
      rw [if_pos (stop notSentinel)]
      split
      · exact ⟨_, rfl⟩
      · exact ⟨_, rfl⟩
  | visit start rest _ _ below inside ih =>
    obtain ⟨fuel, rfl⟩ := Nat.exists_eq_add_one_of_ne_zero (Nat.ne_zero_of_lt enough)
    rw [siblingsContain, if_neg inside]
    split
    · exact ⟨_, rfl⟩
    · rw [if_neg (Nat.not_le.mpr below)]
      exact ih (Nat.lt_of_succ_lt_succ enough)

theorem Settled.scanParents_returns (settled : Settled N tree) (childIndex : Nat)
    (candidates : List Nat) :
    ∃ found, scanParents N (N + 1) tree childIndex candidates = some found := by
  induction candidates with
  | nil => exact ⟨none, rfl⟩
  | cons i rest ih =>
    rw [scanParents]
    split
    · exact ih
    · obtain ⟨cells, walks⟩ := settled.walks i
      obtain ⟨found, returned⟩ := @siblingsContain_returns N tree childIndex _ cells walks (N + 1)
        (Nat.lt_succ_of_le walks.length_le)
      rw [returned]
      cases found with
      | true => exact ⟨_, rfl⟩
      | false => exact ih

theorem Settled.findParent_returns (settled : Settled N tree) (childIndex : Nat) :
    ∃ fuel found, tree.findParent N fuel childIndex = some found := by
  refine ⟨N + 1, ?_⟩
  unfold findParent
  split
  · exact ⟨_, rfl⟩
  · split
    · exact ⟨_, rfl⟩
    · dsimp only
      split
      · exact ⟨_, rfl⟩
      · exact settled.scanParents_returns childIndex (List.range N)

/-! ### What the calls do to the walks -/

theorem settled_new (N : Nat) : Settled N .new where
  walks index := ⟨[], clip_sentinel⟩
  founded index := Acc.intro index fun child edge => by
    obtain ⟨member, _⟩ := edge
    exact absurd (mem_arena.mp member).2 Bool.false_ne_true

theorem Settled.withered (settled : Settled N before) (withered : Withered before after) :
    Settled N after where
  walks index := by
    obtain ⟨cells, walks⟩ := settled.walks index
    rw [withered.firstChild]
    exact ⟨cells, withered.walks walks⟩
  founded := founded_of_fewer settled.founded fun {child parent} edge => by
    obtain ⟨parentMember, childMember, cells, walks, member⟩ := edge
    have stayed : ∀ {index}, index ∈ arena N after → index ∈ arena N before := fun inside =>
      mem_arena.mpr ⟨(mem_arena.mp inside).1, withered.valid _ (mem_arena.mp inside).2⟩
    obtain ⟨old, oldWalks⟩ := settled.walks parent
    have same := (withered.walks oldWalks).unique (withered.firstChild parent ▸ walks)
    exact ⟨stayed parentMember, stayed childMember, old, oldWalks, same ▸ member⟩

theorem revokeLoop_withered {fuel count : Nat} {stack : List Nat} {result : Nat × DerivationTree}
    (returned : revokeLoop N fuel tree stack count = some result) : Withered tree result.2 := by
  induction fuel generalizing tree stack count with
  | zero => cases returned
  | succ fuel ih =>
    cases stack with
    | nil =>
      cases returned
      exact .refl tree
    | cons current stack =>
      rw [revokeLoop] at returned
      split at returned
      · exact ih returned
      · dsimp only at returned
        split at returned
        · cases returned
        · exact (markInvalid_withered current).trans (ih returned)

theorem revoke_withered {fuel : Nat} {result : Nat × DerivationTree}
    (returned : tree.revoke N fuel index = some (.ok result)) : Withered tree result.2 := by
  unfold revoke revokeSubtree at returned
  split at returned
  · cases returned
  · split at returned
    · cases returned
    · obtain ⟨inner, looped, same⟩ := Option.map_eq_some_iff.mp returned
      cases same
      split at looped
      · cases looped
        exact .refl tree
      · exact revokeLoop_withered looped

/-- A node without children is hung in at `slot`, in front of `tail`. `Region`
is where it may become a first child; no list of the region met it before. -/
structure Hung (N : Nat) (before after : DerivationTree) (slot : Nat) (tail : List Nat)
    (Region : Nat → Prop) : Prop where
  below : slot < N
  inside : slot ≠ u32Max
  childless : (after.nodes slot).firstChild = u32Max
  siblings : ∀ index, index ≠ slot →
    (after.nodes index).nextSibling = (before.nodes index).nextSibling
  valid : ∀ index, index ≠ slot → (after.nodes index).isValid = (before.nodes index).isValid
  firsts : ∀ index, index ≠ slot →
    (after.nodes index).firstChild = (before.nodes index).firstChild ∨
      Region index ∧ (after.nodes index).firstChild = slot ∧
        Walks N before (before.nodes index).firstChild tail
  behind : Walks N after (after.nodes slot).nextSibling tail
  closed : ∀ {child parent}, Region parent → ChildOf N before child parent → Region child
  unlisted : ∀ {index cells}, Region index →
    Walks N before (before.nodes index).firstChild cells → slot ∉ cells
  tailRegion : ∀ index ∈ tail, index ∈ arena N before → Region index

section Hanging

variable {slot : Nat} {tail : List Nat} {Region : Nat → Prop}

/-- Every walk of the old tree ends in the new one, perhaps along the new tail. -/
theorem Hung.redirect (hung : Hung N before after slot tail Region) {start : Nat}
    {cells : List Nat} (walks : Walks N before start cells) :
    ∃ redirected, Walks N after start redirected ∧
      ∀ index ∈ redirected, index ∈ cells ∨ slot ∈ cells ∧ index ∈ tail :=
  Threads.redirect walks (fun here apart => by rw [follow, hung.siblings here apart, follow])
    hung.behind

theorem Hung.keeps (hung : Hung N before after slot tail Region) {start : Nat} {cells : List Nat}
    (walks : Walks N before start cells) (unlisted : slot ∉ cells) : Walks N after start cells :=
  walks.congr fun cell member => hung.siblings cell fun same => unlisted (same ▸ member)

theorem Hung.front (hung : Hung N before after slot tail Region) :
    Walks N after slot (slot :: tail) :=
  ⟨clip_of_lt hung.below, hung.inside, hung.behind⟩

theorem Hung.member (hung : Hung N before after slot tail Region) {index : Nat}
    (apart : index ≠ slot) (inside : index ∈ arena N after) : index ∈ arena N before := by
  rw [mem_arena, hung.valid index apart] at inside
  exact mem_arena.mpr inside

theorem Hung.edge (hung : Hung N before after slot tail Region) (settled : Settled N before)
    {child parent : Nat} (edge : ChildOf N after child parent) :
    parent ≠ slot ∧ (child = slot ∨
      (ChildOf N before child parent ∨ ¬ Region parent ∧ Region child)) := by
  obtain ⟨parentMember, childMember, cells, walks, member⟩ := edge
  have parentApart : parent ≠ slot := by
    rintro rfl
    rw [hung.childless] at walks
    have empty : Walks N after u32Max [] := clip_sentinel
    rw [← empty.unique walks] at member
    cases member
  refine ⟨parentApart, ?_⟩
  by_cases isSlot : child = slot
  · exact .inl isSlot
  · refine .inr ?_
    have childBefore := hung.member isSlot childMember
    have parentBefore := hung.member parentApart parentMember
    rcases hung.firsts parent parentApart with same | ⟨region, atFront, tailWalks⟩
    · rw [same] at walks
      obtain ⟨old, oldWalks⟩ := settled.walks parent
      by_cases region : Region parent
      · have kept := hung.keeps oldWalks (hung.unlisted region oldWalks)
        exact .inl ⟨parentBefore, childBefore, old, oldWalks, kept.unique walks ▸ member⟩
      · obtain ⟨redirected, newWalks, members⟩ := hung.redirect oldWalks
        rw [← newWalks.unique walks] at member
        rcases members child member with wasListed | ⟨_, inTail⟩
        · exact .inl ⟨parentBefore, childBefore, old, oldWalks, wasListed⟩
        · exact .inr ⟨region, hung.tailRegion child inTail childBefore⟩
    · rw [atFront] at walks
      rw [← hung.front.unique walks] at member
      rcases mem_cons.mp member with same | inTail
      · exact absurd same isSlot
      · exact .inl ⟨parentBefore, childBefore, tail, tailWalks, inTail⟩

theorem Settled.hung (settled : Settled N before) (hung : Hung N before after slot tail Region) :
    Settled N after where
  walks index := by
    by_cases here : index = slot
    · rw [here, hung.childless]
      exact ⟨[], clip_sentinel⟩
    · rcases hung.firsts index here with same | ⟨_, atFront, _⟩
      · obtain ⟨cells, walks⟩ := settled.walks index
        obtain ⟨redirected, newWalks, _⟩ := hung.redirect walks
        rw [same]
        exact ⟨redirected, newWalks⟩
      · rw [atFront]
        exact ⟨_, hung.front⟩
  founded := by
    refine @redirect_founded Nat (ChildOf N before) (ChildOf N after) Region (fun index => index = slot)
      settled.founded (fun isSlot edge => (hung.edge settled edge).1 isSlot) ?_ ?_
    · intro child parent region edge
      rcases (hung.edge settled edge).2 with isSlot | old | ⟨outside, _⟩
      · exact .inl isSlot
      · exact .inr ⟨hung.closed region old, old⟩
      · exact absurd region outside
    · intro child parent edge
      rcases (hung.edge settled edge).2 with isSlot | old | ⟨_, region⟩
      · exact .inl isSlot
      · exact .inr (.inr old)
      · exact .inr (.inl region)

end Hanging

/-- A change of the node that the sentinel names, which no walk meets; lists may
be dropped. -/
theorem Settled.sentinel (settled : Settled N before)
    (siblings : ∀ index, index ≠ u32Max →
      (after.nodes index).nextSibling = (before.nodes index).nextSibling)
    (valid : ∀ index, index ≠ u32Max →
      (after.nodes index).isValid = (before.nodes index).isValid)
    (firsts : ∀ index, (after.nodes index).firstChild = u32Max ∨
      index ≠ u32Max ∧ (after.nodes index).firstChild = (before.nodes index).firstChild) :
    Settled N after := by
  have empty : Walks N after u32Max [] := clip_sentinel
  have keeps : ∀ {start cells}, Walks N before start cells → Walks N after start cells :=
    fun walks => walks.congr fun cell member => siblings cell (walks.ne_stop member)
  have stayed : ∀ {index}, index ≠ u32Max → index ∈ arena N after → index ∈ arena N before := by
    intro index apart inside
    rw [mem_arena, valid index apart] at inside
    exact mem_arena.mpr inside
  constructor
  · intro index
    rcases firsts index with dropped | ⟨_, same⟩
    · rw [dropped]
      exact ⟨[], empty⟩
    · obtain ⟨cells, walks⟩ := settled.walks index
      rw [same]
      exact ⟨cells, keeps walks⟩
  · refine founded_of_fewer settled.founded fun {child parent} edge => ?_
    obtain ⟨parentMember, childMember, cells, walks, member⟩ := edge
    rcases firsts parent with dropped | ⟨parentApart, same⟩
    · rw [dropped] at walks
      rw [← empty.unique walks] at member
      cases member
    · obtain ⟨old, oldWalks⟩ := settled.walks parent
      rw [same] at walks
      have sameCells := (keeps oldWalks).unique walks
      exact ⟨stayed parentApart parentMember, stayed (walks.ne_stop member) childMember, old,
        oldWalks, sameCells ▸ member⟩

theorem Settled.addRoot (settled : Settled N tree) {epoch : Nat}
    (added : tree.addRoot N index epoch = .ok after) : Settled N after := by
  obtain ⟨below, nodes⟩ := addRoot_spec added
  have atIndex : after.nodes index = DerivationNode.newRoot epoch := by
    rw [nodes, update_self]
  have elsewhere : ∀ other, other ≠ index → after.nodes other = tree.nodes other := by
    intro other apart
    rw [nodes, update_of_ne apart]
  by_cases inside : index = u32Max
  · subst inside
    refine settled.sentinel (fun other apart => ?_) (fun other apart => ?_) fun other => ?_
    · rw [elsewhere other apart]
    · rw [elsewhere other apart]
    · by_cases here : other = u32Max
      · rw [here, atIndex]
        exact .inl rfl
      · rw [elsewhere other here]
        exact .inr ⟨here, rfl⟩
  · refine @Settled.hung N tree after index [] (fun _ => False) settled
      { below := below, inside := inside, childless := ?_, siblings := ?_, valid := ?_
        firsts := ?_, behind := ?_, closed := fun never _ => never
        unlisted := fun never _ => never.elim, tailRegion := fun _ member => by cases member }
    · rw [atIndex]
      rfl
    · exact fun other apart => by rw [elsewhere other apart]
    · exact fun other apart => by rw [elsewhere other apart]
    · exact fun other apart => .inl (by rw [elsewhere other apart])
    · rw [atIndex]
      exact clip_sentinel

/-- A valid node that the child list of a valid node meets. -/
def ListedUnder (N : Nat) (tree : DerivationTree) (parent child : Nat) : Prop :=
  parent ∈ arena N tree ∧ child ∈ arena N tree ∧ child ≠ u32Max ∧ Listed N tree parent child

/-- The walk over the subtree of `source` does not meet `slot`. -/
def Unmet (N : Nat) (tree : DerivationTree) (source slot : Nat) : Prop :=
  ∀ node, Relation.ReflTransGen (ListedUnder N tree) source node → ¬ Listed N tree node slot

/-- Registering a child in a slot that its parent's subtree does not meet. -/
theorem Settled.addChild (settled : Settled N tree) {parentIndex childIndex depth epoch : Nat}
    (added : tree.addChild N parentIndex childIndex depth epoch = .ok after)
    (unmet : childIndex ≠ u32Max → Unmet N tree parentIndex childIndex) : Settled N after := by
  obtain ⟨parentBelow, below, parentValid, nodes⟩ := addChild_spec added
  have atChild : after.nodes childIndex =
      ⟨true, depth, epoch, u32Max, (tree.nodes parentIndex).firstChild, parentIndex⟩ := by
    rw [nodes, update_self]
  have atParent : parentIndex ≠ childIndex →
      after.nodes parentIndex = { tree.nodes parentIndex with firstChild := childIndex } := by
    intro apart
    rw [nodes, update_of_ne apart, update_self]
  have elsewhere : ∀ other, other ≠ childIndex → other ≠ parentIndex →
      after.nodes other = tree.nodes other := by
    intro other notChild notParent
    rw [nodes, update_of_ne notChild, update_of_ne notParent]
  have siblings : ∀ other, other ≠ childIndex →
      (after.nodes other).nextSibling = (tree.nodes other).nextSibling := by
    intro other notChild
    by_cases isParent : other = parentIndex
    · rw [isParent, atParent (isParent ▸ notChild)]
    · rw [elsewhere other notChild isParent]
  have valid : ∀ other, other ≠ childIndex →
      (after.nodes other).isValid = (tree.nodes other).isValid := by
    intro other notChild
    by_cases isParent : other = parentIndex
    · rw [isParent, atParent (isParent ▸ notChild)]
    · rw [elsewhere other notChild isParent]
  by_cases inside : childIndex = u32Max
  · subst inside
    refine settled.sentinel siblings valid fun other => ?_
    by_cases here : other = u32Max
    · rw [here, atChild]
      exact .inl rfl
    · by_cases isParent : other = parentIndex
      · rw [isParent, atParent (isParent ▸ here)]
        exact .inl rfl
      · rw [elsewhere other here isParent]
        exact .inr ⟨here, rfl⟩
  · obtain ⟨tail, tailWalks⟩ := settled.walks parentIndex
    have parentMember : parentIndex ∈ arena N tree := mem_arena.mpr ⟨parentBelow, parentValid⟩
    have unlisted : ∀ {index cells},
        Relation.ReflTransGen (ListedUnder N tree) parentIndex index →
        Walks N tree (tree.nodes index).firstChild cells → childIndex ∉ cells :=
      fun region walks member => unmet inside _ region (walks.listed member)
    have step : ∀ {child parent}, ChildOf N tree child parent →
        ListedUnder N tree parent child := by
      intro child parent edge
      obtain ⟨parentMember, childMember, cells, walks, member⟩ := edge
      exact ⟨parentMember, childMember, walks.ne_stop member, walks.listed member⟩
    refine @Settled.hung N tree after childIndex tail
      (Relation.ReflTransGen (ListedUnder N tree) parentIndex) settled
      { below := below, inside := inside, childless := ?_, siblings := siblings, valid := valid
        firsts := ?_, behind := ?_, closed := fun region edge => region.tail (step edge)
        unlisted := unlisted, tailRegion := ?_ }
    · rw [atChild]
    · intro other notChild
      by_cases isParent : other = parentIndex
      · refine .inr ⟨isParent ▸ .refl, ?_, isParent ▸ tailWalks⟩
        rw [isParent, atParent (isParent ▸ notChild)]
      · exact .inl (by rw [elsewhere other notChild isParent])
    · rw [atChild]
      exact tailWalks.congr fun cell member => siblings cell fun same =>
        unlisted .refl tailWalks (same ▸ member)
    · intro index inTail member
      exact .single (step ⟨parentMember, member, tail, tailWalks, inTail⟩)

/-! ### The walks of the source -/

/-- Where a sibling walk stops. -/
def Ended (N index : Nat) : Prop := index = u32Max ∨ index ≥ N

/-- One step of a sibling walk, whatever the index. -/
def nextOf (tree : DerivationTree) (index : Nat) : Nat := (tree.nodes index).nextSibling

/-- Every sibling walk stops after finitely many steps, and the loops of the
three walks return for every index. -/
structure WalksEnd (N : Nat) (tree : DerivationTree) : Prop where
  siblings : ∀ index, ∃ steps, Ended N (tree.nextOf^[steps] (tree.nodes index).firstChild)
  collect : ∀ index, ∃ fuel collected, tree.collectSubtree N fuel index = some collected
  revoke : ∀ index, ∃ fuel result, tree.revokeSubtree N fuel index = some result
  parent : ∀ index, ∃ fuel found, tree.findParent N fuel index = some found

theorem Walks.ends (walks : Walks N tree start cells) :
    ∃ steps, Ended N (tree.nextOf^[steps] start) := by
  induction walks using Walks.along with
  | ended start _ stop => exact ⟨0, or_iff_not_imp_left.mpr stop⟩
  | visit start rest _ _ _ _ ih =>
    obtain ⟨steps, ended⟩ := ih
    refine ⟨steps + 1, ?_⟩
    rw [Function.iterate_succ_apply]
    exact ended

theorem Settled.walksEnd (settled : Settled N tree) : WalksEnd N tree where
  siblings index := by
    obtain ⟨cells, walks⟩ := settled.walks index
    exact walks.ends
  collect := settled.collectSubtree_returns
  revoke := settled.revokeSubtree_returns
  parent := settled.findParent_returns

theorem pushChildren_loops (loops : ∀ steps, ¬ Ended N (tree.nextOf^[steps] start)) (fuel : Nat)
    (stack : List Nat) : pushChildren N tree fuel start stack = none := by
  induction fuel generalizing start stack with
  | zero => rfl
  | succ fuel ih =>
    obtain ⟨inside, below⟩ :=
      not_or.mp (show ¬ (start = u32Max ∨ start ≥ N) from loops 0)
    rw [pushChildren, if_neg inside, if_neg below]
    exact ih (fun steps => loops (steps + 1)) _

theorem collectSubtree_loops (member : index ∈ arena N tree)
    (loops : ∀ steps, ¬ Ended N (tree.nextOf^[steps] (tree.nodes index).firstChild)) (fuel : Nat) :
    tree.collectSubtree N fuel index = none := by
  obtain ⟨below, valid⟩ := mem_arena.mp member
  cases fuel with
  | zero => rfl
  | succ fuel =>
    have proceed : ¬ (index ≥ N ∨ (!(tree.nodes index).isValid) = true) := by
      simp [valid]
      omega
    rw [collectSubtree, if_pos ⟨below, valid⟩, collectLoop, if_neg proceed]
    dsimp only
    rw [pushChildren_loops loops]

end DerivationTree

namespace CapabilityManager

open DerivationTree

variable {N : Nat} {before after : CapabilityManager}

/-- A grant takes a slot that the walk over the subtree of its source does not
meet. -/
def TakesUnmet (N : Nat) (manager : CapabilityManager) (label : Call × Outcome) : Prop :=
  ∀ sourceIndex sourceGeneration slot, label.1.source = some (sourceIndex, sourceGeneration) →
    manager.slotTaken N label.1 = some slot →
    asU32 slot = u32Max ∨ Unmet N manager.derivation sourceIndex (asU32 slot)

theorem settled_grant {call : Call} {sourceIndex sourceGeneration : Nat}
    {requestedRights : CapRights} {badge : Nat} {target : PartitionId}
    {callerId : Option PartitionId} {result : Except CapError (Nat × Nat)} {outcome : Outcome}
    (inv : before.table.Inv N) (settled : Settled N before.derivation)
    (grants : Grants sourceIndex sourceGeneration requestedRights badge target call callerId)
    (takes : TakesUnmet N before (call, outcome))
    (called : before.grantWithCaller N sourceIndex sourceGeneration requestedRights badge target
      callerId = (result, after)) : Settled N after.derivation := by
  rcases grantWithCaller_cases called with
    ⟨_, _, quiet⟩ | ⟨source, token, depth, consume, handle, table, cleared, inserted, _, _, linking⟩
  · rw [quiet.derivation]
    exact settled
  · obtain ⟨slot, hinted, found, _, _, index, _⟩ := CapabilityTable.insertDerived_spec inv inserted
    have unmet := takes _ _ slot grants.source (grants.taken cleared found)
    rcases linking with ⟨_, _, _, _, _, same⟩ | ⟨_, _, linked⟩
    · rw [same]
      exact settled
    · split at linked
      · rw [index] at linked
        exact settled.addChild linked fun inside => unmet.resolve_left inside
      · rw [linked]
        exact settled

theorem settled_step {label : Call × Outcome} (inv : before.table.Inv N)
    (settled : Settled N before.derivation) (takes : TakesUnmet N before label)
    (step : Step N before label after) : Settled N after.derivation := by
  obtain ⟨call, outcome⟩ := label
  cases step.answers with
  | createRoot called =>
    rcases createRootCapability_cases inv called with ⟨_, _, quiet⟩ | ⟨_, _, _, _, _, _, registered⟩
    · exact quiet.derivation ▸ settled
    · split at registered
      · exact settled.addRoot registered
      · exact registered ▸ settled
  | grant grants called => exact settled_grant inv settled grants takes called
  | incrementEpoch => exact settled
  | revoke called =>
    rcases revoke_cases called with ⟨_, _, quiet⟩ | ⟨_, _, _, _, _, _, _, _, walked, _⟩
    · exact quiet.derivation ▸ settled
    · exact settled.withered (revoke_withered walked)

/-- Run lemma: in every state reached by a run whose grants take unmet slots,
every sibling walk ends and the walks over the tree return. -/
theorem siblingWalksEnd (N : Nat) (config : CapManagerConfig) (history : List (Call × Outcome))
    (manager : CapabilityManager)
    (run : Run (Guarded (Step N) (TakesUnmet N)) (.new config) history manager) :
    WalksEnd N manager.derivation := by
  have reached : manager.table.Inv N ∧ Settled N manager.derivation := by
    refine @Run.stateInvariant _ _ _ _ _ _
      (fun here => CapabilityTable.Inv N here.table ∧ Settled N here.derivation)
      ⟨CapabilityTable.new_inv N, settled_new N⟩ ?_ run
    intro here label next kept guarded
    exact ⟨(step_frame kept.1 guarded.1).1, settled_step kept.1 kept.2 guarded.2 guarded.1⟩
  exact reached.2.walksEnd

/-! ### A slot granted twice by one source -/

def grantOnce : List (Call × Outcome) :=
  [(.createRootCapability .region (.union .read .grant) 0 ⟨1⟩, .ok (.handle 0 1)),
    (.grant 0 1 .read 0 ⟨2⟩, .ok (.handle 1 1))]

theorem siblingWalksEnd_grantOnce :
    ∃ manager, Run (Guarded (Step 2) (TakesUnmet 2)) (.new .new) grantOnce manager ∧
      WalksEnd 2 manager.derivation := by
  have created : Run (Guarded (Step 2) (TakesUnmet 2)) (.new .new) (grantOnce.take 1) _ :=
    Run.single ⟨⟨0, rfl⟩, fun _ _ _ fromSource => by cases fromSource⟩
  -- The root has no children yet, so no walk leads anywhere.
  have nothing : ∀ {tree : DerivationTree} {other}, (tree.nodes 0).firstChild = u32Max →
      Listed 2 tree 0 other → other = u32Max := by
    intro tree other childless isListed
    rw [Listed, childless] at isListed
    rcases Relation.ReflTransGen.cases_head isListed with same | ⟨_, hop, _⟩
    · exact same.symm
    · exact absurd rfl hop.2.1
  have takes : ∀ middle, Step 2 (.new .new) (.createRootCapability .region (.union .read .grant) 0 ⟨1⟩,
      .ok (.handle 0 1)) middle → TakesUnmet 2 middle (.grant 0 1 .read 0 ⟨2⟩, .ok (.handle 1 1)) := by
    rintro middle ⟨fuel, returned⟩ sourceIndex sourceGeneration slot fromSource taken
    cases returned
    cases fromSource
    cases (show some 1 = some slot from taken)
    refine .inr fun node reached isListed => ?_
    have atRoot : node = 0 := by
      rcases Relation.ReflTransGen.cases_head reached with same | ⟨_, under, _⟩
      · exact same.symm
      · exact absurd (nothing rfl under.2.2.2) under.2.2.1
    subst atRoot
    exact absurd (nothing rfl isListed) (by decide)
  have granted : Run (Guarded (Step 2) (TakesUnmet 2)) (.new .new) grantOnce _ :=
    created.snoc ⟨⟨0, rfl⟩, takes _ ⟨0, rfl⟩⟩
  exact ⟨_, granted, siblingWalksEnd 2 .new grantOnce _ granted⟩

/-- The child is revoked and its slot granted again by the same source. -/
def grantTwice : List (Call × Outcome) :=
  grantOnce ++
    [(.revoke 1 1, .ok (.revoked 1)), (.grant 0 1 .read 0 ⟨2⟩, .ok (.handle 1 2))]

theorem stuck {manager : CapabilityManager} {slot : CapSlot}
    (fixed : manager.derivation.nextOf 1 = 1)
    (first : (manager.derivation.nodes 0).firstChild = 1)
    (member : 0 ∈ arena 2 manager.derivation)
    (found : manager.table.lookup 2 0 1 = .ok slot) :
    ¬ WalksEnd 2 manager.derivation ∧
      (∀ fuel, manager.derivation.collectSubtree 2 fuel 0 = none) ∧
      ∀ fuel, manager.apply 2 fuel (.revoke 0 1) = none := by
  have loops : ∀ steps, ¬ Ended 2 (manager.derivation.nextOf^[steps]
      (manager.derivation.nodes 0).firstChild) := by
    intro steps
    rw [first, Function.iterate_fixed fixed]
    rintro (sentinel | outside)
    · cases sentinel
    · exact absurd outside (by decide)
  have collects := collectSubtree_loops member loops
  refine ⟨fun ends => ?_, collects, fun fuel => ?_⟩
  · obtain ⟨steps, ended⟩ := ends.siblings 0
    exact loops steps ended
  · simp [apply, revoke, revokeCapability, found, collects]

/-- The slot is then its own sibling: the walk from the root never stops, and
revoking the root never returns. -/
theorem siblingWalks_loop :
    ∃ manager, Run (Step 2) (.new .new) grantTwice manager ∧ ¬ WalksEnd 2 manager.derivation ∧
      (∀ fuel, manager.derivation.collectSubtree 2 fuel 0 = none) ∧
      ∀ fuel, manager.apply 2 fuel (.revoke 0 1) = none := by
  have again : Run (Step 2) (.new .new) grantTwice _ :=
    .cons ⟨0, rfl⟩ <| .cons ⟨0, rfl⟩ <| .cons ⟨9, rfl⟩ <| .single ⟨0, rfl⟩
  exact ⟨_, again, stuck rfl rfl (by decide) rfl⟩

end CapabilityManager

end Rvm.Cap
